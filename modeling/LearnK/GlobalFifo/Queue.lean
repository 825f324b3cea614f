import LearnK.Lib.BoundedQueue
import LearnK.GlobalFifo.Beside
import LearnK.GlobalFifo.Clear

/-! globalfifo is a bounded byte queue.  The queue is told what a run logged, and holds the stored
bytes after it, whichever calls were made.  `MEM_CLEAR` takes nothing out of it: it turns the bytes
that are in the queue into zeros. -/

namespace LearnK.GlobalFifo

open ByteMemory StepMachine

def Event.queueOp : Event → Option (BoundedQueue.Op UInt8)
  | .accepted bytes => some (.put bytes)
  | .delivered bytes => some (.take bytes)
  | .cleared => some (.overwrite 0)
  | _ => none

def queueOps (events : List Event) : List (BoundedQueue.Op UInt8) := events.filterMap Event.queueOp

def State.queueOps (state : State) : List (BoundedQueue.Op UInt8) := GlobalFifo.queueOps state.events

theorem queueOps_puts (events : List Event) :
    (queueOps events).flatMap BoundedQueue.Op.puts = events.flatMap Event.acceptedBytes := by
  induction events with
  | nil => rfl
  | cons event rest ih =>
      have here : (event :: rest).flatMap Event.acceptedBytes =
          event.acceptedBytes ++ rest.flatMap Event.acceptedBytes := List.flatMap_cons
      rw [here, ← ih, queueOps, List.filterMap_cons]
      cases event <;> rfl

theorem queueOps_takes (events : List Event) :
    (queueOps events).flatMap BoundedQueue.Op.takes = events.flatMap Event.deliveredBytes := by
  induction events with
  | nil => rfl
  | cons event rest ih =>
      have here : (event :: rest).flatMap Event.deliveredBytes =
          event.deliveredBytes ++ rest.flatMap Event.deliveredBytes := List.flatMap_cons
      rw [here, ← ih, queueOps, List.filterMap_cons]
      cases event <;> rfl

theorem overwrite_mem_queueOps {events : List Event} {byte : UInt8} :
    BoundedQueue.Op.overwrite byte ∈ queueOps events ↔ byte = 0 ∧ Event.cleared ∈ events := by
  simp only [queueOps, List.mem_filterMap]
  constructor
  · rintro ⟨event, member, same⟩
    cases event <;> simp [Event.queueOp] at same
    exact ⟨same.symm, member⟩
  · rintro ⟨rfl, member⟩
    exact ⟨.cleared, member, rfl⟩

@[simp] theorem HelloDev.contents_length (dev : HelloDev) : dev.contents.length = dev.currentLen :=
  slice_length ..

def QueueStep (dev : HelloDev) (effect : Effect) : Prop :=
  run (BoundedQueue.step hellodevSize) dev.contents (queueOps effect.events) =
    some effect.dev.contents

theorem queueStep_silent {dev : HelloDev} {effect : Effect}
    (sameLen : effect.dev.currentLen = dev.currentLen) (sameMem : effect.dev.mem = dev.mem)
    (silent : queueOps effect.events = []) : QueueStep dev effect := by
  rw [QueueStep, silent, run_nil, HelloDev.contents, HelloDev.contents, sameLen, sameMem]

theorem helloIoctl_clear_contents {dev : HelloDev} (bounded : dev.currentLen ≤ hellodevSize) :
    ({ dev with mem := blit dev.mem 0 (List.replicate hellodevSize 0) } : HelloDev).contents =
      dev.contents.map fun _ => 0 := by
  refine List.ext_getElem? fun index => ?_
  by_cases inside : index < dev.currentLen
  · have bound : index < (List.replicate hellodevSize (0 : UInt8)).length := by
      rw [List.length_replicate]
      omega
    have stored := blit_inside dev.mem 0 _ bound
    rw [Nat.zero_add, List.getElem_replicate] at stored
    have zero : (List.replicate dev.currentLen (0 : UInt8))[index]? = some 0 := by simp [inside]
    simp [HelloDev.contents, slice_getElem? _ _ _ _ inside, stored, zero]
  · simp [HelloDev.contents, Nat.not_lt.mp inside]

theorem Kind.copy_replays (kind : Kind) (dev : HelloDev) (call : Call) (count copied : Nat) (task : Task)
    (wakes : Option WaitQueue) :
    QueueStep dev ⟨(kind.ops.copy dev call count copied).1, task,
      (kind.ops.copy dev call count copied).2, wakes⟩ := by
  cases kind with
  | read => exact queueStep_silent rfl rfl rfl
  | write => exact congrArg some (helloWrite_copy_contents dev call count copied).symm

theorem Kind.update_replays {kind : Kind} {dev : HelloDev} {count : Nat} {data : List UInt8} (task : Task)
    (wakes : Option WaitQueue) (ready : kind.Ready dev count data) :
    QueueStep dev ⟨(kind.ops.update dev count data).1, task,
      (kind.ops.update dev count data).2, wakes⟩ := by
  cases kind with
  | read =>
      obtain ⟨fits, rfl⟩ := ready
      have split := helloRead_update_contents dev (slice dev.mem 0 count) fits
      have taken := BoundedQueue.step_take hellodevSize (slice dev.mem 0 count)
        (helloRead.update dev count (slice dev.mem 0 count)).1.contents
      rw [← split] at taken
      exact (run_cons _ _ _).trans (congrArg (fun next => next.bind some) taken)
  | write =>
      have grown := helloWrite_update_append ready
      obtain ⟨fits, rfl⟩ := ready
      have put := BoundedQueue.step_put hellodevSize dev.contents
        (slice dev.mem dev.currentLen count) (by simpa using fits)
      rw [← grown] at put
      exact (run_cons _ _ _).trans (congrArg (fun next => next.bind some) put)

theorem transferStep_replays {kind : Kind} {call : Call} {self copied : Nat} {dev : HelloDev}
    {task : Task} {pc : Pc} {effect : Effect}
    (ready : ∀ count data, pc = .update count data → kind.Ready dev count data)
    (stepped : transferStep kind call self copied dev task pc = some effect) :
    QueueStep dev effect := by
  cases pc with
  | lock | relock =>
      obtain ⟨locked, taken, rfl⟩ := Option.map_eq_some_iff.mp stepped
      obtain ⟨-, rfl⟩ := mutexLock_some taken
      exact queueStep_silent rfl rfl rfl
  | addWait =>
      cases stepped
      exact queueStep_silent (by simp) (by simp) rfl
  | test | schedule | signal =>
      simp only [transferStep] at stepped
      split_ifs at stepped <;> cases stepped <;> exact queueStep_silent rfl rfl rfl
  | setState | unlockLoop | wake | out | out2 | leave =>
      cases stepped
      exact queueStep_silent rfl rfl rfl
  | copy =>
      simp only [transferStep] at stepped
      split_ifs at stepped <;> cases stepped <;> exact kind.copy_replays ..
  | update count data =>
      cases stepped
      exact Kind.update_replays _ _ (ready count data rfl)

theorem taskStep_replays {self copied : Nat} {dev : HelloDev} {task : Task} {effect : Effect}
    (bounded : dev.currentLen ≤ hellodevSize) (ready : task.Ready dev)
    (stepped : taskStep self copied dev task = some effect) : QueueStep dev effect := by
  unfold taskStep at stepped
  unfold Task.Ready at ready
  cases activity : task.activity with
  | idle => simp [activity] at stepped
  | transfer kind call pc =>
      rw [activity] at stepped ready
      refine transferStep_replays ?_ stepped
      intro count data same
      subst pc
      exact ready
  | ioctl pc =>
      rw [activity] at stepped
      cases pc with
      | lock =>
          obtain ⟨locked, taken, rfl⟩ := Option.map_eq_some_iff.mp stepped
          obtain ⟨-, rfl⟩ := mutexLock_some taken
          exact queueStep_silent rfl rfl rfl
      | clear =>
          cases stepped
          exact congrArg some (helloIoctl_clear_contents bounded).symm
      | unlock | leave =>
          cases stepped
          exact queueStep_silent rfl rfl rfl
  | poll pc =>
      rw [activity] at stepped
      cases pc with
      | lock | relock =>
          obtain ⟨locked, taken, rfl⟩ := Option.map_eq_some_iff.mp stepped
          obtain ⟨-, rfl⟩ := mutexLock_some taken
          exact queueStep_silent rfl rfl rfl
      | mask | leave =>
          cases stepped
          exact queueStep_silent rfl rfl rfl

/-- The queue that was told everything so far holds what the device stores. -/
structure QueueInvariant (state : State) : Prop where
  stream : StreamInvariant state
  queue : run (BoundedQueue.step hellodevSize) [] state.queueOps = some state.dev.contents

theorem queueInvariant_initial : QueueInvariant initial := ⟨streamInvariant_initial, rfl⟩

theorem queueInvariant_step {state next : State} {action : Action} (invariant : QueueInvariant state)
    (stepped : step state action = some next) : QueueInvariant next := by
  refine ⟨streamInvariant_step invariant.stream stepped, ?_⟩
  obtain ⟨self, operation, -, -, rfl⟩ | ⟨self, -, rfl⟩ | ⟨self, copied, effect, -, ran, rfl⟩ :=
    step_cases stepped
  · exact invariant.queue
  · exact invariant.queue
  · have advanced := taskStep_replays invariant.stream.bounded (invariant.stream.ready self) ran
    have told : (state.apply self effect).queueOps = state.queueOps ++ queueOps effect.events := by
      simp only [State.queueOps, queueOps, State.apply, List.filterMap_append]
    rw [told, run_append, invariant.queue]
    exact advanced

theorem queueInvariant_reachable {actions : List Action} {state : State}
    (reached : run step initial actions = some state) : QueueInvariant state :=
  run_invariant (fun _ _ _ invariant stepped => queueInvariant_step invariant stepped)
    queueInvariant_initial reached

/-- Every run of reads, writes, clears and polls is a run of the bounded queue, and the bytes come
out in the order they were accepted: a byte is lost, doubled or reordered by none of them, and
changed by a clear only. -/
theorem helloDev_refines_queue (actions : List Action) (state : State)
    (reached : run step initial actions = some state) :
    run (BoundedQueue.step hellodevSize) [] state.queueOps = some state.dev.contents ∧
      state.accepted.length = state.delivered.length + state.dev.currentLen ∧
      List.Forall₂ (fun accepted kept => kept = accepted ∨ kept = 0 ∧ Event.cleared ∈ state.events)
        state.accepted (state.delivered ++ state.dev.contents) := by
  have queue := (queueInvariant_reachable reached).queue
  have faded := BoundedQueue.run_faded queue
  rw [List.nil_append, State.queueOps, queueOps_puts, queueOps_takes] at faded
  refine ⟨queue, ?_, faded.imp fun accepted kept fate => ?_⟩
  · have lengths := faded.length_eq
    rwa [List.length_append, HelloDev.contents_length] at lengths
  · exact fate.imp_right overwrite_mem_queueOps.mp

theorem helloDev_refines_queue_clearedReader :
    ∃ state, run step initial clearedReader = some state ∧ state.dev.contents = [0] ∧
      state.accepted.length = state.delivered.length + state.dev.currentLen :=
  ⟨_, rfl, by decide, (helloDev_refines_queue clearedReader _ rfl).2.1⟩

end LearnK.GlobalFifo
