import LearnK.GlobalFifo.Calls

/-! The byte stream: what successful writes accepted is what successful reads delivered
followed by the bytes still stored, in every interleaving without `MEM_CLEAR`. -/

namespace LearnK.GlobalFifo

open ByteMemory StepMachine

def Event.acceptedBytes : Event → List UInt8
  | .accepted bytes => bytes
  | _ => []

def Event.deliveredBytes : Event → List UInt8
  | .delivered bytes => bytes
  | _ => []

def Event.InBounds : Event → Prop
  | .access start length => start + length ≤ hellodevSize
  | _ => True

def State.accepted (state : State) : List UInt8 := state.events.flatMap Event.acceptedBytes

def State.delivered (state : State) : List UInt8 := state.events.flatMap Event.deliveredBytes

def HelloDev.contents (dev : HelloDev) : List UInt8 := slice dev.mem 0 dev.currentLen

def Kind.Ready (dev : HelloDev) (count : Nat) (data : List UInt8) : Kind → Prop
  | .read => count ≤ dev.currentLen ∧ data = slice dev.mem 0 count
  | .write => dev.currentLen + count ≤ hellodevSize ∧ data = slice dev.mem dev.currentLen count

def Task.Ready (dev : HelloDev) (task : Task) : Prop :=
  match task.activity with
  | .transfer kind _ (.update count data) => kind.Ready dev count data
  | _ => True

/-- What one statement does to the stream; only a clear of a device with bytes in it breaks the
balance. -/
structure StreamStep (dev : HelloDev) (effect : Effect) : Prop where
  bounded : effect.dev.currentLen ≤ hellodevSize
  within : ∀ event ∈ effect.events, event.InBounds
  stream : Event.cleared ∉ effect.events ∨ dev.currentLen = 0 →
    dev.contents ++ effect.events.flatMap Event.acceptedBytes =
      effect.events.flatMap Event.deliveredBytes ++ effect.dev.contents
  ready : effect.task.Ready effect.dev

theorem Task.ready_of_activity {dev other : HelloDev} {task : Task} (ready : task.Ready dev)
    (sameLen : other.currentLen = dev.currentLen) (sameMem : other.mem = dev.mem) :
    task.Ready other := by
  unfold Task.Ready at ready ⊢
  split
  · rename_i kind call count data activity
    rw [activity] at ready
    cases kind <;> simpa [Kind.Ready, sameLen, sameMem] using ready
  · trivial

theorem streamStep_same {dev : HelloDev} {effect : Effect} (bounded : dev.currentLen ≤ hellodevSize)
    (sameLen : effect.dev.currentLen = dev.currentLen) (sameMem : effect.dev.mem = dev.mem)
    (silent : ∀ event ∈ effect.events, event.InBounds ∧ event.acceptedBytes = [] ∧
      event.deliveredBytes = [])
    (ready : effect.task.Ready effect.dev) : StreamStep dev effect := by
  have noneAccepted : effect.events.flatMap Event.acceptedBytes = [] :=
    List.flatMap_eq_nil_iff.mpr fun event member => (silent event member).2.1
  have noneDelivered : effect.events.flatMap Event.deliveredBytes = [] :=
    List.flatMap_eq_nil_iff.mpr fun event member => (silent event member).2.2
  refine ⟨by omega, fun event member => (silent event member).1, fun _ => ?_, ready⟩
  rw [noneAccepted, noneDelivered, List.append_nil, List.nil_append]
  simp [HelloDev.contents, sameLen, sameMem]

theorem helloRead_clamp_le (count currentLen : Nat) : helloRead.clamp count currentLen ≤ currentLen := by
  simp only [helloRead]
  split <;> omega

theorem helloWrite_clamp_le (count currentLen : Nat) (bounded : currentLen ≤ hellodevSize) :
    currentLen + helloWrite.clamp count currentLen ≤ hellodevSize := by
  simp only [helloWrite]
  split <;> omega

theorem helloRead_update_contents (dev : HelloDev) {count : Nat} (data : List UInt8)
    (fits : count ≤ dev.currentLen) :
    dev.contents = slice dev.mem 0 count ++ (helloRead.update dev count data).1.contents := by
  have split : dev.currentLen = count + (dev.currentLen - count) := by omega
  have shifted : slice (copyForward dev.mem 0 count (dev.currentLen - count)) 0
      (dev.currentLen - count) = slice dev.mem (0 + count) (dev.currentLen - count) := by
    apply slice_congr
    intro index bound
    simp [copyForward_apply dev.mem (Nat.zero_le count), bound]
  calc dev.contents
      = slice dev.mem 0 (count + (dev.currentLen - count)) := by rw [HelloDev.contents, ← split]
    _ = slice dev.mem 0 count ++ slice dev.mem (0 + count) (dev.currentLen - count) :=
        slice_append dev.mem 0 count _
    _ = slice dev.mem 0 count ++ (helloRead.update dev count data).1.contents := by
        rw [← shifted]
        rfl

theorem helloWrite_copy_data (dev : HelloDev) (call : Call) {count copied : Nat}
    (complete : count - copied = 0) :
    slice (helloWrite.copy dev call count copied).1.mem dev.currentLen count =
      helloWrite.data dev call count := by
  have whole : (slice call.buf 0 count).take copied = slice call.buf 0 count := by
    apply List.take_of_length_le
    simp
    omega
  simp only [helloWrite, whole, complete, List.replicate_zero, List.append_nil]
  simpa using slice_blit_same dev.mem dev.currentLen (slice call.buf 0 count)

theorem helloWrite_copy_contents (dev : HelloDev) (call : Call) (count copied : Nat) :
    (helloWrite.copy dev call count copied).1.contents = dev.contents :=
  slice_blit_apart dev.mem _ (.inl (by simp [helloWrite]))

theorem Kind.copy_stream (kind : Kind) {dev : HelloDev} {call : Call} {count copied : Nat}
    {task : Task} {wakes : Option WaitQueue} (bounded : dev.currentLen ≤ hellodevSize)
    (clamped : count = kind.ops.clamp call.count dev.currentLen)
    (ready : task.Ready (kind.ops.copy dev call count copied).1) :
    StreamStep dev ⟨(kind.ops.copy dev call count copied).1, task,
      (kind.ops.copy dev call count copied).2, wakes⟩ := by
  cases kind with
  | read =>
      have fits : count ≤ dev.currentLen :=
        clamped ▸ helloRead_clamp_le call.count dev.currentLen
      apply streamStep_same bounded rfl rfl ?_ ready
      simp only [Kind.ops, helloRead, List.mem_singleton, forall_eq, Event.InBounds,
        Event.acceptedBytes, Event.deliveredBytes, and_self, and_true]
      omega
  | write =>
      have fits : dev.currentLen + count ≤ hellodevSize :=
        clamped ▸ helloWrite_clamp_le call.count dev.currentLen bounded
      have kept := helloWrite_copy_contents dev call count copied
      refine ⟨bounded, ?_, fun _ => ?_, ready⟩
      · simpa [Kind.ops, helloWrite, Event.InBounds] using fits
      · simp only [Kind.ops, kept]
        simp [helloWrite, Event.acceptedBytes, Event.deliveredBytes]

theorem Kind.copy_ready (kind : Kind) {dev : HelloDev} {call : Call} {count copied : Nat}
    (bounded : dev.currentLen ≤ hellodevSize)
    (clamped : count = kind.ops.clamp call.count dev.currentLen) (complete : count - copied = 0) :
    kind.Ready (kind.ops.copy dev call count copied).1 count (kind.ops.data dev call count) := by
  cases kind with
  | read => exact ⟨clamped ▸ helloRead_clamp_le call.count dev.currentLen, rfl⟩
  | write =>
      exact ⟨clamped ▸ helloWrite_clamp_le call.count dev.currentLen bounded,
        (helloWrite_copy_data dev call complete).symm⟩

theorem Kind.update_stream (kind : Kind) {dev : HelloDev} {count : Nat} {data : List UInt8}
    {task : Task} {wakes : Option WaitQueue} (bounded : dev.currentLen ≤ hellodevSize)
    (ready : kind.Ready dev count data)
    (next : task.Ready (kind.ops.update dev count data).1) :
    StreamStep dev ⟨(kind.ops.update dev count data).1, task,
      (kind.ops.update dev count data).2, wakes⟩ := by
  cases kind with
  | read =>
      obtain ⟨fits, rfl⟩ := ready
      refine ⟨?_, ?_, fun _ => ?_, next⟩
      · simp only [Kind.ops, helloRead]
        omega
      · simp only [Kind.ops, helloRead, List.mem_cons, List.not_mem_nil, or_false, forall_eq_or_imp,
          forall_eq, Event.InBounds, and_true]
        omega
      · simpa [Kind.ops, helloRead, Event.acceptedBytes, Event.deliveredBytes]
          using helloRead_update_contents dev (slice dev.mem 0 count) fits
  | write =>
      obtain ⟨fits, rfl⟩ := ready
      refine ⟨fits, ?_, fun _ => ?_, next⟩
      · simp [Kind.ops, helloWrite, Event.InBounds]
      · simp [Kind.ops, helloWrite, Event.acceptedBytes, Event.deliveredBytes, HelloDev.contents,
          slice_append]

theorem transferStep_stream {kind : Kind} {call : Call} {self copied : Nat} {dev : HelloDev}
    {task : Task} {pc : Pc} {effect : Effect} (bounded : dev.currentLen ≤ hellodevSize)
    (ready : ∀ count data, pc = .update count data → kind.Ready dev count data)
    (stepped : transferStep kind call self copied dev task pc = some effect) :
    StreamStep dev effect := by
  cases pc with
  | lock | relock =>
      obtain ⟨locked, taken, rfl⟩ := Option.map_eq_some_iff.mp stepped
      obtain ⟨-, rfl⟩ := mutexLock_some taken
      exact streamStep_same bounded rfl rfl (by simp) trivial
  | addWait =>
      cases stepped
      exact streamStep_same bounded (by simp) (by simp)
        (by simp [Event.InBounds, Event.acceptedBytes, Event.deliveredBytes]) trivial
  | test =>
      simp only [transferStep] at stepped
      split_ifs at stepped <;> cases stepped <;>
        exact streamStep_same bounded rfl rfl (by simp) trivial
  | schedule =>
      simp only [transferStep] at stepped
      split_ifs at stepped
      cases stepped
      exact streamStep_same bounded rfl rfl (by simp) trivial
  | signal =>
      simp only [transferStep] at stepped
      split_ifs at stepped <;> cases stepped <;>
        exact streamStep_same bounded rfl rfl (by simp) trivial
  | setState | unlockLoop | wake | out =>
      cases stepped
      exact streamStep_same bounded rfl rfl (by simp) trivial
  | out2 | leave =>
      cases stepped
      exact streamStep_same bounded rfl rfl
        (by simp [Event.InBounds, Event.acceptedBytes, Event.deliveredBytes]) trivial
  | copy =>
      simp only [transferStep] at stepped
      split_ifs at stepped with incomplete
      · cases stepped
        exact kind.copy_stream bounded rfl trivial
      · cases stepped
        exact kind.copy_stream bounded rfl (kind.copy_ready bounded rfl (not_not.mp incomplete))
  | update count data =>
      cases stepped
      exact kind.update_stream bounded (ready count data rfl) trivial

theorem helloIoctl_clear_stream {dev : HelloDev} {task : Task} {wakes : Option WaitQueue}
    (bounded : dev.currentLen ≤ hellodevSize)
    (ready : task.Ready { dev with mem := blit dev.mem 0 (List.replicate hellodevSize 0) }) :
    StreamStep dev ⟨{ dev with mem := blit dev.mem 0 (List.replicate hellodevSize 0) }, task,
      [.access 0 hellodevSize, .cleared], wakes⟩ := by
  refine ⟨bounded, by simp [Event.InBounds], ?_, ready⟩
  rintro (absent | empty)
  · simp at absent
  · simp [HelloDev.contents, empty, Event.acceptedBytes, Event.deliveredBytes]

theorem taskStep_stream {self copied : Nat} {dev : HelloDev} {task : Task} {effect : Effect}
    (bounded : dev.currentLen ≤ hellodevSize) (ready : task.Ready dev)
    (stepped : taskStep self copied dev task = some effect) : StreamStep dev effect := by
  unfold taskStep at stepped
  unfold Task.Ready at ready
  cases activity : task.activity with
  | idle => simp [activity] at stepped
  | transfer kind call pc =>
      rw [activity] at stepped ready
      refine transferStep_stream bounded ?_ stepped
      intro count data same
      subst pc
      exact ready
  | ioctl pc =>
      rw [activity] at stepped
      cases pc with
      | lock =>
          obtain ⟨locked, taken, rfl⟩ := Option.map_eq_some_iff.mp stepped
          obtain ⟨-, rfl⟩ := mutexLock_some taken
          exact streamStep_same bounded rfl rfl (by simp) trivial
      | clear =>
          cases stepped
          exact helloIoctl_clear_stream bounded trivial
      | unlock =>
          cases stepped
          exact streamStep_same bounded rfl rfl (by simp) trivial
      | leave =>
          cases stepped
          exact streamStep_same bounded rfl rfl
            (by simp [Event.InBounds, Event.acceptedBytes, Event.deliveredBytes]) trivial
  | poll pc =>
      rw [activity] at stepped
      cases pc with
      | lock | relock =>
          obtain ⟨locked, taken, rfl⟩ := Option.map_eq_some_iff.mp stepped
          obtain ⟨-, rfl⟩ := mutexLock_some taken
          exact streamStep_same bounded rfl rfl (by simp) trivial
      | mask =>
          cases stepped
          exact streamStep_same bounded rfl rfl (by simp) trivial
      | leave =>
          cases stepped
          exact streamStep_same bounded rfl rfl
            (by simp [Event.InBounds, Event.acceptedBytes, Event.deliveredBytes]) trivial

theorem taskStep_outside {self copied : Nat} {dev : HelloDev} {task : Task} {effect : Effect}
    (outside : task.critical = false) (stepped : taskStep self copied dev task = some effect) :
    effect.dev.currentLen = dev.currentLen ∧ effect.dev.mem = dev.mem := by
  unfold taskStep at stepped
  unfold Task.critical at outside
  cases activity : task.activity with
  | idle => simp [activity] at stepped
  | transfer kind call pc =>
      rw [activity] at stepped outside
      cases pc with
      | lock | relock =>
          obtain ⟨locked, taken, rfl⟩ := Option.map_eq_some_iff.mp stepped
          obtain ⟨-, rfl⟩ := mutexLock_some taken
          exact ⟨rfl, rfl⟩
      | schedule =>
          simp only [transferStep] at stepped
          split_ifs at stepped
          cases stepped
          exact ⟨rfl, rfl⟩
      | signal =>
          simp only [transferStep] at stepped
          split_ifs at stepped <;> cases stepped <;> exact ⟨rfl, rfl⟩
      | out2 | leave =>
          cases stepped
          exact ⟨rfl, rfl⟩
      | _ => simp [Activity.critical, Pc.critical] at outside
  | ioctl pc =>
      rw [activity] at stepped outside
      cases pc with
      | lock =>
          obtain ⟨locked, taken, rfl⟩ := Option.map_eq_some_iff.mp stepped
          obtain ⟨-, rfl⟩ := mutexLock_some taken
          exact ⟨rfl, rfl⟩
      | leave =>
          cases stepped
          exact ⟨rfl, rfl⟩
      | clear | unlock => simp [Activity.critical] at outside
  | poll pc =>
      rw [activity] at stepped outside
      cases pc with
      | lock =>
          obtain ⟨locked, taken, rfl⟩ := Option.map_eq_some_iff.mp stepped
          obtain ⟨-, rfl⟩ := mutexLock_some taken
          exact ⟨rfl, rfl⟩
      | mask | relock | leave => simp [Activity.critical] at outside

structure StreamInvariant (state : State) : Prop where
  exclusive : Exclusive state
  bounded : state.dev.currentLen ≤ hellodevSize
  within : ∀ event ∈ state.events, event.InBounds
  stream : Event.cleared ∉ state.events → state.accepted = state.delivered ++ state.dev.contents
  ready : ∀ id, (state.tasks id).Ready state.dev

theorem streamInvariant_initial : StreamInvariant initial where
  exclusive := exclusive_initial
  bounded := Nat.zero_le _
  within := by simp [initial]
  stream _ := rfl
  ready _ := trivial

theorem streamInvariant_setTask {state : State} {self : Nat} {task : Task}
    (invariant : StreamInvariant state) (exclusive : Exclusive (state.setTask self task))
    (ready : task.Ready state.dev) : StreamInvariant (state.setTask self task) where
  exclusive := exclusive
  bounded := invariant.bounded
  within := invariant.within
  stream := invariant.stream
  ready id := by
    rw [State.setTask_tasks]
    split
    · exact ready
    · exact invariant.ready id

theorem wakeUp_ready (dev other : HelloDev) (wakes : Option WaitQueue) (id : Nat) (task : Task) :
    (wakeUp dev wakes id task).Ready other ↔ task.Ready other := by
  simp [Task.Ready]

theorem Task.ready_outside {dev : HelloDev} {task : Task} (outside : task.critical = false) :
    task.Ready dev := by
  unfold Task.Ready
  split
  · rename_i activity
    simp [Task.critical, activity, Activity.critical, Pc.critical] at outside
  · trivial

theorem streamInvariant_run {state : State} {self copied : Nat} {effect : Effect}
    (invariant : StreamInvariant state) (exclusive : Exclusive (state.apply self effect))
    (ran : taskStep self copied state.dev (state.tasks self) = some effect) :
    StreamInvariant (state.apply self effect) := by
  have advanced := taskStep_stream invariant.bounded (invariant.ready self) ran
  refine ⟨exclusive, advanced.bounded, ?_, ?_, ?_⟩
  · intro event member
    rcases List.mem_append.mp member with old | new
    · exact invariant.within event old
    · exact advanced.within event new
  · intro noClear
    simp only [State.apply, List.mem_append, not_or] at noClear
    have before := invariant.stream noClear.1
    simp only [State.accepted, State.delivered] at before
    simp only [State.accepted, State.delivered, State.apply, List.flatMap_append]
    rw [before, List.append_assoc, advanced.stream (Or.inl noClear.2), List.append_assoc]
  · intro id
    by_cases same : id = self
    · subst id
      rw [State.apply_self]
      exact advanced.ready
    · rw [State.apply_other state effect same, wakeUp_ready]
      by_cases critical : (state.tasks id).critical = true
      · have outside : (state.tasks self).critical = false := by
          by_contra inside
          exact same (exclusive_unique invariant.exclusive critical (by simpa using inside))
        obtain ⟨sameLen, sameMem⟩ := taskStep_outside outside ran
        exact Task.ready_of_activity (invariant.ready id) sameLen sameMem
      · exact Task.ready_outside (by simpa using critical)

theorem Operation.start_ready (operation : Operation) (task : Task) (dev : HelloDev) :
    ({ task with activity := operation.start } : Task).Ready dev :=
  Task.ready_outside operation.start_not_critical

theorem streamInvariant_step {state next : State} {action : Action}
    (invariant : StreamInvariant state) (stepped : step state action = some next) :
    StreamInvariant next := by
  have exclusive := exclusive_step invariant.exclusive stepped
  obtain ⟨self, operation, rfl, idle, rfl⟩ | ⟨self, -, rfl⟩ | ⟨self, copied, effect, -, ran, rfl⟩ :=
    step_cases stepped
  · exact streamInvariant_setTask invariant exclusive (operation.start_ready _ _)
  · exact streamInvariant_setTask invariant exclusive (invariant.ready self)
  · exact streamInvariant_run invariant exclusive ran

theorem streamInvariant_reachable {actions : List Action} {state : State}
    (reached : run step initial actions = some state) : StreamInvariant state :=
  run_invariant (fun _ _ _ invariant stepped => streamInvariant_step invariant stepped)
    streamInvariant_initial reached

def bytesOf (kind : Kind) (moves : List Moved) : List UInt8 :=
  (moves.filter (·.kind = kind)).flatMap Moved.bytes

theorem bytesOf_append (kind : Kind) (first second : List Moved) :
    bytesOf kind (first ++ second) = bytesOf kind first ++ bytesOf kind second := by
  rw [bytesOf, List.filter_append, List.flatMap_append, bytesOf, bytesOf]

structure MovesShown (owner : Nat) (task : Task) (events : List Event) : Prop where
  accepted : events.flatMap Event.acceptedBytes =
    bytesOf .write ((task.logs owner events).filterMap Logged.moved)
  delivered : events.flatMap Event.deliveredBytes =
    bytesOf .read ((task.logs owner events).filterMap Logged.moved)

theorem Kind.copy_shown (kind : Kind) (self : Nat) (task : Task) (dev : HelloDev) (call : Call)
    (count copied : Nat)
    (logs : ∀ events, task.logs self events = events.map fun event => ⟨self, kind, call, event⟩) :
    MovesShown self task (kind.ops.copy dev call count copied).2 := by
  cases kind <;> exact ⟨by rw [logs]; rfl, by rw [logs]; rfl⟩

theorem Kind.update_shown (kind : Kind) (self : Nat) (task : Task) (dev : HelloDev) (call : Call)
    (count : Nat) (data : List UInt8)
    (logs : ∀ events, task.logs self events = events.map fun event => ⟨self, kind, call, event⟩) :
    MovesShown self task (kind.ops.update dev count data).2 := by
  cases kind <;> exact ⟨by rw [logs]; rfl, by rw [logs]; rfl⟩

theorem transferStep_shown {kind : Kind} {call : Call} {self copied : Nat} {dev : HelloDev}
    {task : Task} {pc : Pc} {effect : Effect} (activity : task.activity = .transfer kind call pc)
    (stepped : transferStep kind call self copied dev task pc = some effect) :
    MovesShown self task effect.events := by
  have logs (events : List Event) : task.logs self events =
      events.map fun event => ⟨self, kind, call, event⟩ := by rw [Task.logs, activity]
  cases pc with
  | lock | relock =>
      obtain ⟨locked, -, rfl⟩ := Option.map_eq_some_iff.mp stepped
      exact ⟨by rw [logs]; rfl, by rw [logs]; rfl⟩
  | addWait | setState | unlockLoop | wake | out | out2 | leave =>
      cases stepped
      exact ⟨by rw [logs]; rfl, by rw [logs]; rfl⟩
  | test | schedule | signal =>
      simp only [transferStep] at stepped
      split_ifs at stepped <;> cases stepped <;> exact ⟨by rw [logs]; rfl, by rw [logs]; rfl⟩
  | copy =>
      simp only [transferStep] at stepped
      split_ifs at stepped <;> cases stepped <;> exact kind.copy_shown self task dev call _ _ logs
  | update count data =>
      cases stepped
      exact kind.update_shown self task dev call count data logs

theorem taskStep_shown {self copied : Nat} {dev : HelloDev} {task : Task} {effect : Effect}
    (stepped : taskStep self copied dev task = some effect) : MovesShown self task effect.events := by
  unfold taskStep at stepped
  cases activity : task.activity with
  | idle => simp [activity] at stepped
  | transfer kind call pc =>
      rw [activity] at stepped
      exact transferStep_shown activity stepped
  | ioctl pc =>
      rw [activity] at stepped
      have quiet (events : List Event) : task.logs self events = [] := by rw [Task.logs, activity]
      cases pc with
      | lock =>
          obtain ⟨locked, -, rfl⟩ := Option.map_eq_some_iff.mp stepped
          exact ⟨by rw [quiet]; rfl, by rw [quiet]; rfl⟩
      | clear | unlock | leave =>
          cases stepped
          exact ⟨by rw [quiet]; rfl, by rw [quiet]; rfl⟩
  | poll pc =>
      rw [activity] at stepped
      have quiet (events : List Event) : task.logs self events = [] := by rw [Task.logs, activity]
      cases pc with
      | lock | relock =>
          obtain ⟨locked, -, rfl⟩ := Option.map_eq_some_iff.mp stepped
          exact ⟨by rw [quiet]; rfl, by rw [quiet]; rfl⟩
      | mask | leave =>
          cases stepped
          exact ⟨by rw [quiet]; rfl, by rw [quiet]; rfl⟩

structure TransferInvariant (actions : List Action) (state : State) : Prop where
  accepted : state.accepted = bytesOf .write (transfers actions)
  delivered : state.delivered = bytesOf .read (transfers actions)

theorem transferInvariant_step {before : List Action} {state next : State} {action : Action}
    (reached : run step initial before = some state) (invariant : TransferInvariant before state)
    (stepped : step state action = some next) : TransferInvariant (before ++ [action]) next := by
  have grown := transfers_snoc reached action
  obtain ⟨self, operation, rfl, -, rfl⟩ | ⟨self, rfl, rfl⟩ | ⟨self, copied, effect, rfl, ran, rfl⟩ :=
    step_cases stepped
  · replace grown := grown.trans (List.append_nil _)
    exact ⟨grown ▸ invariant.accepted, grown ▸ invariant.delivered⟩
  · replace grown := grown.trans (List.append_nil _)
    exact ⟨grown ▸ invariant.accepted, grown ▸ invariant.delivered⟩
  · have shown := taskStep_shown ran
    rw [State.logs_run ran] at grown
    constructor
    · rw [grown, bytesOf_append, ← invariant.accepted, ← shown.accepted]
      exact List.flatMap_append
    · rw [grown, bytesOf_append, ← invariant.delivered, ← shown.delivered]
      exact List.flatMap_append

theorem transferInvariant_reachable {actions : List Action} {state : State}
    (reached : run step initial actions = some state) : TransferInvariant actions state :=
  run_history (fun _ _ _ _ led invariant stepped => transferInvariant_step led invariant stepped)
    ⟨rfl, rfl⟩ reached

/-- globalfifo is a FIFO byte stream in every interleaving that has not cleared it, whether or
not the mutex is free at the moment.  The accepted and delivered bytes are those of the calls that
return, or are about to return, how many they were. -/
theorem helloDev_stream (actions : List Action) (state : State)
    (reached : run step initial actions = some state) (noClear : Event.cleared ∉ state.events) :
    state.dev.currentLen ≤ hellodevSize ∧
      (∀ start length, Event.access start length ∈ state.events →
        start + length ≤ hellodevSize) ∧
      state.accepted = state.delivered ++ slice state.dev.mem 0 state.dev.currentLen ∧
      state.accepted = bytesOf .write (transfers actions) ∧
      state.delivered = bytesOf .read (transfers actions) ∧
      ∀ id, List.Forall₂ Accounts ((transfers actions).filter (·.task = id))
        ((successes actions).filter (·.task = id) ++ (state.tasks id).owes id) := by
  have invariant := streamInvariant_reachable reached
  have shown := transferInvariant_reachable reached
  exact ⟨invariant.bounded, fun start length member => invariant.within _ member,
    invariant.stream noClear, shown.accepted, shown.delivered, (callInvariant_reachable reached).accounts⟩

def sleepyReader : List Action :=
  [.enter 1 (.read ⟨false, fun _ => 0, 2⟩)] ++ List.replicate 5 (.run 1 0) ++
    [.enter 0 (.write ⟨false, fun index => UInt8.ofNat (index + 7), 3⟩)] ++
    List.replicate 9 (.run 0 3) ++ List.replicate 10 (.run 1 2)

theorem helloDev_stream_sleepyReader : ∃ state, run step initial sleepyReader = some state ∧
    state.delivered = [7, 8] ∧
    state.accepted = state.delivered ++ slice state.dev.mem 0 state.dev.currentLen ∧
    (successes sleepyReader).map (fun returned => (returned.task, returned.ret)) = [(0, 3), (1, 2)] ∧
    List.Forall₂ Accounts ((transfers sleepyReader).filter (·.task = 1))
      ((successes sleepyReader).filter (·.task = 1) ++ (state.tasks 1).owes 1) := by
  obtain ⟨-, -, stream, -, -, accounts⟩ := helloDev_stream sleepyReader _ rfl (by decide)
  exact ⟨_, rfl, by decide, stream, by decide, accounts 1⟩

end LearnK.GlobalFifo
