import LearnK.GlobalFifo.Stream
import Mathlib.Data.List.DropRight

/-! `MEM_CLEAR` and the stream.  `hello_ioctl` zeroes the memory and leaves `current_len`
alone, so the stream starts afresh only where the device was empty. -/

namespace LearnK.GlobalFifo

open ByteMemory StepMachine

def sinceClear (events : List Event) : List Event :=
  events.rtakeWhile fun event => event ≠ .cleared

/-- Every read delivers, once and in order, bytes accepted after the clear that precedes it. -/
def FreshReads (events : List Event) : Prop :=
  ∀ before bytes after, events = before ++ .delivered bytes :: after →
    (sinceClear before).flatMap Event.deliveredBytes ++ bytes <+:
      (sinceClear before).flatMap Event.acceptedBytes

def Activity.clearing : Activity → Bool
  | .ioctl .clear => true
  | _ => false

def ClearsEmpty (state : State) : Action → Prop
  | .run self _ => (state.tasks self).activity.clearing = true → state.dev.currentLen = 0
  | _ => True

instance (state : State) : ∀ action, Decidable (ClearsEmpty state action)
  | .run _ _ => inferInstanceAs (Decidable (_ → _))
  | .enter _ _ => isTrue trivial
  | .signal _ => isTrue trivial

theorem sinceClear_append {before after : List Event} (noClear : Event.cleared ∉ after) :
    sinceClear (before ++ after) = sinceClear before ++ after := by
  induction after using List.reverseRecOn with
  | nil => simp
  | append_singleton after event ih =>
      simp only [List.mem_append, List.mem_singleton, not_or] at noClear
      have kept : event ≠ Event.cleared := fun same => noClear.2 same.symm
      rw [sinceClear, ← List.append_assoc, List.rtakeWhile_concat_pos _ _ _ (by simpa using kept),
        ← sinceClear, ih noClear.1, List.append_assoc]

@[simp] theorem sinceClear_cleared (before : List Event) :
    sinceClear (before ++ [.cleared]) = [] :=
  List.rtakeWhile_concat_neg _ _ _ (by simp)

@[simp] theorem acceptedBytes_cleared : Event.cleared.acceptedBytes = [] := rfl

@[simp] theorem acceptedBytes_delivered (bytes : List UInt8) :
    (Event.delivered bytes).acceptedBytes = [] := rfl

@[simp] theorem deliveredBytes_delivered (bytes : List UInt8) :
    (Event.delivered bytes).deliveredBytes = bytes := rfl

def Event.Quiet (event : Event) : Prop :=
  event ≠ .cleared ∧ event.acceptedBytes = [] ∧ ∀ bytes, event ≠ .delivered bytes

inductive StreamEvents (task : Task) : List Event → Prop
  | silent {events : List Event} (noClear : Event.cleared ∉ events)
      (noRead : ∀ bytes, Event.delivered bytes ∉ events) : StreamEvents task events
  | cleared {first : Event} (quiet : first.Quiet) (clears : task.activity.clearing = true) :
      StreamEvents task [first, .cleared]
  | delivered {first second : Event} (bytes : List UInt8) (quiet : first.Quiet)
      (alsoQuiet : second.Quiet) : StreamEvents task [first, second, .delivered bytes]

theorem transferStep_streamEvents {kind : Kind} {call : Call} {self copied : Nat} {dev : HelloDev}
    {task : Task} {pc : Pc} {effect : Effect}
    (stepped : transferStep kind call self copied dev task pc = some effect) :
    StreamEvents task effect.events := by
  cases pc with
  | lock | relock =>
      obtain ⟨locked, taken, rfl⟩ := Option.map_eq_some_iff.mp stepped
      exact .silent (by simp) (by simp)
  | addWait | setState | unlockLoop | wake | out | out2 | leave =>
      cases stepped
      exact .silent (by simp) (by simp)
  | test | schedule | signal =>
      simp only [transferStep] at stepped
      split_ifs at stepped <;> cases stepped <;> exact .silent (by simp) (by simp)
  | copy =>
      simp only [transferStep] at stepped
      split_ifs at stepped <;> cases stepped <;> cases kind <;>
        exact .silent (by simp [Kind.ops, helloRead, helloWrite])
          (by simp [Kind.ops, helloRead, helloWrite])
  | update count data =>
      cases stepped
      cases kind with
      | read =>
          exact .delivered data (by simp [Event.Quiet, Event.acceptedBytes])
            (by simp [Event.Quiet, Event.acceptedBytes])
      | write => exact .silent (by simp [Kind.ops, helloWrite]) (by simp [Kind.ops, helloWrite])

theorem taskStep_streamEvents {self copied : Nat} {dev : HelloDev} {task : Task} {effect : Effect}
    (stepped : taskStep self copied dev task = some effect) : StreamEvents task effect.events := by
  unfold taskStep at stepped
  cases activity : task.activity with
  | idle => simp [activity] at stepped
  | transfer kind call pc =>
      rw [activity] at stepped
      exact transferStep_streamEvents stepped
  | ioctl pc =>
      rw [activity] at stepped
      cases pc with
      | lock =>
          obtain ⟨locked, taken, rfl⟩ := Option.map_eq_some_iff.mp stepped
          exact .silent (by simp) (by simp)
      | clear =>
          cases stepped
          exact .cleared (by simp [Event.Quiet, Event.acceptedBytes]) (by rw [activity]; rfl)
      | unlock | leave =>
          cases stepped
          exact .silent (by simp) (by simp)
  | poll pc =>
      rw [activity] at stepped
      cases pc with
      | lock | relock =>
          obtain ⟨locked, taken, rfl⟩ := Option.map_eq_some_iff.mp stepped
          exact .silent (by simp) (by simp)
      | mask | leave =>
          cases stepped
          exact .silent (by simp) (by simp)

theorem freshReads_append {before added : List Event} (fresh : FreshReads before)
    (noRead : ∀ bytes, Event.delivered bytes ∉ added) : FreshReads (before ++ added) := by
  intro front bytes back shape
  rcases List.append_eq_append_iff.mp shape with ⟨middle, rfl, rest⟩ | ⟨middle, rfl, rest⟩
  · exact absurd (by rw [rest]; simp) (noRead bytes)
  · cases middle with
    | nil =>
        simp only [List.nil_append] at rest
        exact absurd (by rw [← rest]; simp) (noRead bytes)
    | cons event middle =>
        obtain ⟨rfl, -⟩ := List.cons.inj rest
        exact fresh front bytes middle rfl

theorem freshReads_delivered {before : List Event} {bytes : List UInt8} (fresh : FreshReads before)
    (here : (sinceClear before).flatMap Event.deliveredBytes ++ bytes <+:
      (sinceClear before).flatMap Event.acceptedBytes) :
    FreshReads (before ++ [.delivered bytes]) := by
  intro front other back shape
  rcases List.eq_nil_or_concat' back with rfl | ⟨back, last, rfl⟩
  · obtain ⟨rfl, same⟩ := List.append_inj' shape rfl
    obtain ⟨rfl⟩ := Event.delivered.inj (List.cons.inj same).1
    exact here
  · rw [← List.cons_append, ← List.append_assoc] at shape
    obtain ⟨rfl, -⟩ := List.append_inj' shape rfl
    exact fresh front other back rfl

theorem deliveredBytes_eq_nil {events : List Event}
    (noRead : ∀ bytes, Event.delivered bytes ∉ events) :
    events.flatMap Event.deliveredBytes = [] := by
  refine List.flatMap_eq_nil_iff.mpr ?_
  intro event member
  cases event with
  | delivered bytes => exact absurd member (noRead bytes)
  | _ => rfl

structure ClearInvariant (state : State) : Prop where
  stream : StreamInvariant state
  balance : (sinceClear state.events).flatMap Event.acceptedBytes =
    (sinceClear state.events).flatMap Event.deliveredBytes ++ state.dev.contents
  fresh : FreshReads state.events

theorem clearInvariant_initial : ClearInvariant initial where
  stream := streamInvariant_initial
  balance := rfl
  fresh := by
    intro before bytes after shape
    simp [initial] at shape

theorem clearInvariant_setTask {state : State} {self : Nat} {task : Task}
    (invariant : ClearInvariant state) (stream : StreamInvariant (state.setTask self task)) :
    ClearInvariant (state.setTask self task) :=
  ⟨stream, invariant.balance, invariant.fresh⟩

theorem clearInvariant_run {state : State} {self copied : Nat} {effect : Effect}
    (empties : (state.tasks self).activity.clearing = true → state.dev.currentLen = 0)
    (invariant : ClearInvariant state) (stream : StreamInvariant (state.apply self effect))
    (ran : taskStep self copied state.dev (state.tasks self) = some effect) :
    ClearInvariant (state.apply self effect) := by
  have advanced := taskStep_stream invariant.stream.bounded (invariant.stream.ready self) ran
  have balance := invariant.balance
  have events := taskStep_streamEvents ran
  generalize added : effect.events = new at events
  have flow := advanced.stream
  rw [added] at flow
  cases events with
  | silent noClear noRead =>
      have moved := flow (.inl noClear)
      rw [deliveredBytes_eq_nil noRead, List.nil_append] at moved
      refine ⟨stream, ?_, ?_⟩
      · simp only [State.apply, added]
        rw [sinceClear_append noClear, List.flatMap_append, List.flatMap_append, balance,
          deliveredBytes_eq_nil noRead, List.append_nil, List.append_assoc, moved]
      · simp only [State.apply, added]
        exact freshReads_append invariant.fresh noRead
  | @cleared first quiet clears =>
      obtain ⟨-, unaccepted, unread⟩ := quiet
      have empty : state.dev.currentLen = 0 := empties clears
      have noRead : ∀ bytes, Event.delivered bytes ∉ [first, Event.cleared] := by
        intro bytes member
        simp only [List.mem_cons, List.not_mem_nil, or_false, reduceCtorEq] at member
        exact unread bytes member.symm
      have nothing := flow (.inr empty)
      rw [deliveredBytes_eq_nil noRead] at nothing
      have emptied : effect.dev.contents = [] := by
        simpa [HelloDev.contents, empty, unaccepted] using nothing.symm
      have split : state.events ++ [first, Event.cleared] =
        (state.events ++ [first]) ++ [.cleared] := by simp
      refine ⟨stream, ?_, ?_⟩
      · simp only [State.apply, added]
        rw [split, sinceClear_cleared, emptied]
        rfl
      · simp only [State.apply, added]
        exact freshReads_append invariant.fresh noRead
  | @delivered first second bytes quiet alsoQuiet =>
      obtain ⟨keeps, unaccepted, unread⟩ := quiet
      obtain ⟨alsoKeeps, alsoUnaccepted, alsoUnread⟩ := alsoQuiet
      have noClear : Event.cleared ∉ [first, second] := by
        simp [Ne.symm keeps, Ne.symm alsoKeeps]
      have noRead : ∀ bytes, Event.delivered bytes ∉ [first, second] := by
        intro bytes
        simp [Ne.symm (unread bytes), Ne.symm (alsoUnread bytes)]
      have silent := deliveredBytes_eq_nil noRead
      have accepted : [first, second].flatMap Event.acceptedBytes = [] := by
        simp [unaccepted, alsoUnaccepted]
      have split : [first, second, Event.delivered bytes] =
        [first, second] ++ [.delivered bytes] := rfl
      have moved := flow (.inl (by simp [Ne.symm keeps, Ne.symm alsoKeeps]))
      rw [split, List.flatMap_append, List.flatMap_append, silent, accepted] at moved
      have read : state.dev.contents = bytes ++ effect.dev.contents := by simpa using moved
      have before : sinceClear (state.events ++ [first, second]) =
          sinceClear state.events ++ [first, second] := sinceClear_append noClear
      refine ⟨stream, ?_, ?_⟩
      · simp only [State.apply, added]
        rw [split, ← List.append_assoc, sinceClear_append (by simp), before]
        simp only [List.flatMap_append, silent, accepted, balance, read]
        simp
      · simp only [State.apply, added]
        rw [split, ← List.append_assoc]
        refine freshReads_delivered (freshReads_append invariant.fresh noRead) ?_
        rw [before, List.flatMap_append, List.flatMap_append, silent, accepted, balance, read]
        exact ⟨effect.dev.contents, by simp⟩

theorem clearInvariant_step {state next : State} {action : Action}
    (empties : ClearsEmpty state action) (invariant : ClearInvariant state)
    (stepped : step state action = some next) : ClearInvariant next := by
  have stream := streamInvariant_step invariant.stream stepped
  obtain ⟨self, operation, rfl, idle, rfl⟩ | ⟨self, rfl, rfl⟩ | ⟨self, copied, effect, rfl, ran, rfl⟩ :=
    step_cases stepped
  · exact clearInvariant_setTask invariant stream
  · exact clearInvariant_setTask invariant stream
  · exact clearInvariant_run empties invariant stream ran

/-- In every interleaving that clears only an empty device, reads deliver what was accepted since
the last clear. -/
theorem helloDev_clear_fresh (actions : List Action) (state : State)
    (reached : run step initial actions = some state)
    (empties : EachStep step ClearsEmpty initial actions) : FreshReads state.events := by
  have invariant : ClearInvariant state :=
    run_invariant_eachStep (fun _ _ _ empties invariant stepped =>
      clearInvariant_step empties invariant stepped) clearInvariant_initial empties reached
  exact invariant.fresh

/-- Three bytes are written and read, the empty device is cleared, one byte is written and read. -/
def emptyClear : List Action :=
  [.enter 0 (.write ⟨false, fun _ => 7, 3⟩)] ++ List.replicate 9 (.run 0 3) ++
    [.enter 1 (.read ⟨false, fun _ => 0, 3⟩)] ++ List.replicate 9 (.run 1 3) ++
    [.enter 2 (.ioctl memClear)] ++ List.replicate 4 (.run 2 0) ++
    [.enter 0 (.write ⟨false, fun _ => 9, 1⟩)] ++ List.replicate 9 (.run 0 1) ++
    [.enter 1 (.read ⟨false, fun _ => 0, 2⟩)] ++ List.replicate 9 (.run 1 1)

theorem helloDev_clear_fresh_emptyClear : ∃ state, run step initial emptyClear = some state ∧
    state.delivered = [7, 7, 7, 9] ∧ FreshReads state.events :=
  ⟨_, rfl, by decide, helloDev_clear_fresh emptyClear _ rfl (by decide)⟩

def clearedReader : List Action :=
  [.enter 0 (.write ⟨false, fun _ => 7, 3⟩)] ++ List.replicate 9 (.run 0 3) ++
    [.enter 1 (.ioctl memClear)] ++ List.replicate 4 (.run 1 0) ++
    [.enter 2 (.read ⟨false, fun _ => 0, 2⟩)] ++ List.replicate 9 (.run 2 2)

/-- Three bytes, a clear and a read: the read delivers two zeros that nobody wrote. -/
theorem helloIoctl_clear_leaves_bytes : ∃ state, run step initial clearedReader = some state ∧
    state.delivered = [0, 0] ∧ ¬FreshReads state.events := by
  refine ⟨_, rfl, by decide, ?_⟩
  intro fresh
  have early := fresh
    [.waitAdded 0 .wWait, .access 0 3, .accepted [7, 7, 7], .waitRemoved 0 .wWait, .returned 0 3,
      .access 0 hellodevSize, .cleared, .returned 1 0, .waitAdded 2 .rWait, .access 0 2, .access 2 1,
      .access 0 1] [0, 0] [.waitRemoved 2 .wWait, .returned 2 2] rfl
  exact absurd early (by decide)

end LearnK.GlobalFifo
