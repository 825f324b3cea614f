import LearnK.GlobalFifo.Discipline
import LearnK.GlobalFifo.Pairing

/-! Two device states side by side, the second with some tasks hidden: a hidden task is in no queue
there, never holds the mutex and stays idle.  The other tasks run alike in both, and the statements
of a hidden task's call that has not succeeded do not show. -/

namespace LearnK.GlobalFifo

open ByteMemory StepMachine

def Action.task : Action → Nat
  | .enter task _ | .signal task | .run task _ => task

def Event.delivery : Event → Option (List UInt8)
  | .delivered bytes => some bytes
  | _ => none

def State.deliveries (state : State) : List (List UInt8) := state.events.filterMap Event.delivery

def Pc.succeeds : Pc → Bool
  | .update _ _ | .wake _ => true
  | .out ret | .out2 ret | .leave ret => decide (0 ≤ ret)
  | _ => false

structure DevBeside (hidden : Nat → Bool) (dev other : HelloDev) : Prop where
  length : other.currentLen = dev.currentLen
  bytes : other.contents = dev.contents
  mutex : other.mutex = dev.mutex.filter fun id => !hidden id
  readers : other.rWait = dev.rWait.filter fun id => !hidden id
  writers : other.wWait = dev.wWait.filter fun id => !hidden id

structure EffectBeside (hidden : Nat → Bool) (effect other : Effect) : Prop where
  dev : DevBeside hidden effect.dev other.dev
  task : other.task = effect.task
  events : other.events = effect.events
  wakes : other.wakes = effect.wakes

theorem slice_eq_take {dev : HelloDev} {count : Nat} (fits : count ≤ dev.currentLen) :
    slice dev.mem 0 count = dev.contents.take count := by
  have split : dev.currentLen = count + (dev.currentLen - count) := by omega
  rw [HelloDev.contents, split, slice_append]
  exact (List.take_left' (slice_length _ _ _)).symm

theorem helloRead_update_drop {dev : HelloDev} {count : Nat} {data : List UInt8}
    (fits : count ≤ dev.currentLen) :
    (helloRead.update dev count data).1.contents = dev.contents.drop count := by
  rw [helloRead_update_contents dev data fits]
  exact (List.drop_left' (slice_length _ _ _)).symm

theorem helloWrite_update_append {dev : HelloDev} {count : Nat} {data : List UInt8}
    (ready : Kind.write.Ready dev count data) :
    (helloWrite.update dev count data).1.contents = dev.contents ++ data := by
  rw [ready.2]
  simp only [helloWrite, HelloDev.contents, slice_append, Nat.zero_add]

theorem cleared_contents {dev other : HelloDev} (same : other.currentLen = dev.currentLen)
    (bounded : dev.currentLen ≤ hellodevSize) :
    ({ other with mem := blit other.mem 0 (List.replicate hellodevSize 0) } : HelloDev).contents =
      ({ dev with mem := blit dev.mem 0 (List.replicate hellodevSize 0) } : HelloDev).contents := by
  simp only [HelloDev.contents, same]
  apply slice_congr
  intro index bound
  have inside : index < (List.replicate hellodevSize (0 : UInt8)).length := by
    rw [List.length_replicate]
    omega
  rw [blit_inside _ _ _ inside, blit_inside _ _ _ inside]

section

variable {hidden : Nat → Bool} {dev other : HelloDev} {self : Nat}

theorem DevBeside.lock (beside : DevBeside hidden dev other) (shown : hidden self = false) :
    DevBeside hidden { dev with mutex := some self } { other with mutex := some self } :=
  ⟨beside.length, beside.bytes, (Option.filter_some_pos (by simp [shown])).symm, beside.readers,
    beside.writers⟩

theorem DevBeside.unlock (beside : DevBeside hidden dev other) :
    DevBeside hidden (mutexUnlock dev) (mutexUnlock other) :=
  ⟨beside.length, beside.bytes, rfl, beside.readers, beside.writers⟩

theorem DevBeside.addWait (beside : DevBeside hidden dev other) (shown : hidden self = false)
    (queue : WaitQueue) :
    DevBeside hidden (addWaitQueue dev self queue) (addWaitQueue other self queue) := by
  cases queue with
  | rWait =>
      refine ⟨beside.length, beside.bytes, beside.mutex, ?_, beside.writers⟩
      simp [addWaitQueue, beside.readers, shown]
  | wWait =>
      refine ⟨beside.length, beside.bytes, beside.mutex, beside.readers, ?_⟩
      simp [addWaitQueue, beside.writers, shown]

theorem DevBeside.removeWait (beside : DevBeside hidden dev other) :
    DevBeside hidden (removeWaitQueue dev self) (removeWaitQueue other self) := by
  refine ⟨beside.length, beside.bytes, beside.mutex, ?_, ?_⟩
  · simp only [removeWaitQueue, beside.readers, List.erase_filter]
  · simp only [removeWaitQueue, beside.writers, List.erase_filter]

theorem DevBeside.mutexLock (beside : DevBeside hidden dev other) {locked : HelloDev}
    (taken : mutexLock dev self = some locked) :
    locked = { dev with mutex := some self } ∧
      GlobalFifo.mutexLock other self = some { other with mutex := some self } := by
  obtain ⟨free, rfl⟩ := mutexLock_some taken
  refine ⟨rfl, ?_⟩
  rw [GlobalFifo.mutexLock, beside.mutex, free]
  rfl

theorem DevBeside.copy (beside : DevBeside hidden dev other) (kind : Kind) (call : Call)
    (count copied : Nat) :
    DevBeside hidden (kind.ops.copy dev call count copied).1 (kind.ops.copy other call count copied).1 ∧
      (kind.ops.copy other call count copied).2 = (kind.ops.copy dev call count copied).2 := by
  cases kind with
  | read => exact ⟨beside, rfl⟩
  | write =>
      refine ⟨⟨beside.length, ?_, beside.mutex, beside.readers, beside.writers⟩, ?_⟩
      · exact (helloWrite_copy_contents other call count copied).trans
          (beside.bytes.trans (helloWrite_copy_contents dev call count copied).symm)
      · simp only [Kind.ops, helloWrite, beside.length]

theorem DevBeside.data (beside : DevBeside hidden dev other) (kind : Kind) (call : Call) :
    kind.ops.data other call (kind.ops.clamp call.count dev.currentLen) =
      kind.ops.data dev call (kind.ops.clamp call.count dev.currentLen) := by
  cases kind with
  | read =>
      have fits := helloRead_clamp_le call.count dev.currentLen
      have fits' : helloRead.clamp call.count dev.currentLen ≤ other.currentLen := by
        rw [beside.length]
        exact fits
      exact (slice_eq_take fits').trans (by rw [beside.bytes]; exact (slice_eq_take fits).symm)
  | write => rfl

theorem DevBeside.update (beside : DevBeside hidden dev other) {kind : Kind} {count : Nat}
    {data : List UInt8} (ready : kind.Ready dev count data) (ready' : kind.Ready other count data) :
    DevBeside hidden (kind.ops.update dev count data).1 (kind.ops.update other count data).1 ∧
      (kind.ops.update other count data).2 = (kind.ops.update dev count data).2 := by
  cases kind with
  | read =>
      refine ⟨⟨?_, ?_, beside.mutex, beside.readers, beside.writers⟩, ?_⟩
      · simp only [Kind.ops, helloRead, beside.length]
      · exact (helloRead_update_drop ready'.1).trans
          (by rw [beside.bytes]; exact (helloRead_update_drop ready.1).symm)
      · simp only [Kind.ops, helloRead, beside.length]
  | write =>
      refine ⟨⟨?_, ?_, beside.mutex, beside.readers, beside.writers⟩, rfl⟩
      · simp only [Kind.ops, helloWrite, beside.length]
      · exact (helloWrite_update_append ready').trans
          (by rw [beside.bytes]; exact (helloWrite_update_append ready).symm)

theorem transferStep_beside {kind : Kind} {call : Call} {copied : Nat} {task : Task} {pc : Pc}
    {effect : Effect} (beside : DevBeside hidden dev other) (shown : hidden self = false)
    (ready : ∀ count data, pc = .update count data →
      kind.Ready dev count data ∧ kind.Ready other count data)
    (stepped : transferStep kind call self copied dev task pc = some effect) :
    ∃ effect', transferStep kind call self copied other task pc = some effect' ∧
      EffectBeside hidden effect effect' := by
  cases pc with
  | lock | relock =>
      obtain ⟨locked, taken, rfl⟩ := Option.map_eq_some_iff.mp stepped
      obtain ⟨rfl, taken'⟩ := beside.mutexLock taken
      exact ⟨_, congrArg (Option.map _) taken', beside.lock shown, rfl, rfl, rfl⟩
  | addWait =>
      cases stepped
      exact ⟨_, rfl, beside.addWait shown _, rfl, rfl, rfl⟩
  | test =>
      simp only [transferStep, beside.length] at stepped ⊢
      split_ifs at stepped ⊢ <;> cases stepped <;> exact ⟨_, rfl, beside, rfl, rfl, rfl⟩
  | setState | wake | leave =>
      cases stepped
      exact ⟨_, rfl, beside, rfl, rfl, rfl⟩
  | unlockLoop | out =>
      cases stepped
      exact ⟨_, rfl, beside.unlock, rfl, rfl, rfl⟩
  | schedule | signal =>
      simp only [transferStep] at stepped ⊢
      split_ifs at stepped ⊢ <;> cases stepped <;> exact ⟨_, rfl, beside, rfl, rfl, rfl⟩
  | copy =>
      obtain ⟨copies, accesses⟩ :=
        beside.copy kind call (kind.ops.clamp call.count dev.currentLen) copied
      simp only [transferStep, beside.length, beside.data] at stepped ⊢
      split_ifs at stepped ⊢ <;> cases stepped <;> exact ⟨_, rfl, copies, rfl, accesses, rfl⟩
  | update count data =>
      obtain ⟨mine, its⟩ := ready count data rfl
      obtain ⟨updates, events⟩ := beside.update mine its
      cases stepped
      exact ⟨_, rfl, updates, rfl, events, rfl⟩
  | out2 ret =>
      cases stepped
      exact ⟨_, rfl, beside.removeWait, rfl, rfl, rfl⟩

theorem taskStep_beside {copied : Nat} {task : Task} {effect : Effect}
    (beside : DevBeside hidden dev other) (shown : hidden self = false)
    (bounded : dev.currentLen ≤ hellodevSize) (ready : task.Ready dev) (ready' : task.Ready other)
    (stepped : taskStep self copied dev task = some effect) :
    ∃ effect', taskStep self copied other task = some effect' ∧ EffectBeside hidden effect effect' := by
  unfold taskStep at stepped ⊢
  unfold Task.Ready at ready ready'
  cases activity : task.activity with
  | idle => simp [activity] at stepped
  | transfer kind call pc =>
      rw [activity] at stepped ready ready'
      refine transferStep_beside beside shown ?_ stepped
      intro count data same
      subst same
      exact ⟨ready, ready'⟩
  | ioctl pc =>
      rw [activity] at stepped
      cases pc with
      | lock =>
          obtain ⟨locked, taken, rfl⟩ := Option.map_eq_some_iff.mp stepped
          obtain ⟨rfl, taken'⟩ := beside.mutexLock taken
          exact ⟨_, congrArg (Option.map _) taken', beside.lock shown, rfl, rfl, rfl⟩
      | clear =>
          cases stepped
          refine ⟨_, rfl, ⟨beside.length, ?_, beside.mutex, beside.readers, beside.writers⟩, rfl,
            rfl, rfl⟩
          exact cleared_contents beside.length bounded
      | unlock =>
          cases stepped
          exact ⟨_, rfl, beside.unlock, rfl, rfl, rfl⟩
      | leave =>
          cases stepped
          exact ⟨_, rfl, beside, rfl, rfl, rfl⟩
  | poll pc =>
      rw [activity] at stepped
      cases pc with
      | lock | relock =>
          obtain ⟨locked, taken, rfl⟩ := Option.map_eq_some_iff.mp stepped
          obtain ⟨rfl, taken'⟩ := beside.mutexLock taken
          exact ⟨_, congrArg (Option.map _) taken', beside.lock shown, rfl, rfl, rfl⟩
      | mask =>
          cases stepped
          refine ⟨_, rfl, beside, ?_, rfl, rfl⟩
          simp only [beside.length]
      | leave =>
          cases stepped
          exact ⟨_, rfl, beside, rfl, rfl, rfl⟩

end

/-- What the statements of a call that has not succeeded do: nothing to the stored bytes, nothing
that shows with the calling task hidden. -/
structure Unnoticed (hidden : Nat → Bool) (dev other : HelloDev) (effect : Effect) : Prop where
  length : effect.dev.currentLen = dev.currentLen
  bytes : effect.dev.contents = dev.contents
  beside : DevBeside hidden effect.dev other
  silent : effect.events.filterMap Event.delivery = []
  calm : effect.wakes = none

section

variable {hidden : Nat → Bool} {dev other : HelloDev} {self : Nat}

theorem DevBeside.ownMutex (beside : DevBeside hidden dev other) (concealed : hidden self = true)
    (mine : dev.mutex = none ∨ dev.mutex = some self) (mutex : Option Nat)
    (after : mutex = none ∨ mutex = some self) : DevBeside hidden { dev with mutex := mutex } other := by
  have free (holder : Option Nat) (ours : holder = none ∨ holder = some self) :
      (holder.filter fun id => !hidden id) = none := by
    rcases ours with rfl | rfl
    · rfl
    · exact Option.filter_some_neg (by simp [concealed])
  refine ⟨beside.length, beside.bytes, ?_, beside.readers, beside.writers⟩
  rw [beside.mutex, free _ mine, free _ after]

theorem DevBeside.ownAdd (beside : DevBeside hidden dev other) (concealed : hidden self = true)
    (queue : WaitQueue) : DevBeside hidden (addWaitQueue dev self queue) other := by
  cases queue with
  | rWait =>
      refine ⟨beside.length, beside.bytes, beside.mutex, ?_, beside.writers⟩
      simp [addWaitQueue, beside.readers, concealed]
  | wWait =>
      refine ⟨beside.length, beside.bytes, beside.mutex, beside.readers, ?_⟩
      simp [addWaitQueue, beside.writers, concealed]

theorem DevBeside.ownRemove (beside : DevBeside hidden dev other) (concealed : hidden self = true) :
    DevBeside hidden (removeWaitQueue dev self) other := by
  have absent (queue : List Nat) : (queue.erase self).filter (fun id => !hidden id) =
      queue.filter fun id => !hidden id := by
    rw [← List.erase_filter, List.erase_of_not_mem]
    simp [concealed]
  refine ⟨beside.length, beside.bytes, beside.mutex, ?_, ?_⟩
  · rw [beside.readers, removeWaitQueue, absent]
  · rw [beside.writers, removeWaitQueue, absent]

theorem DevBeside.unnoticed (beside : DevBeside hidden dev other) {task : Task} :
    Unnoticed hidden dev other ⟨dev, task, [], none⟩ :=
  ⟨rfl, rfl, beside, rfl, rfl⟩

theorem transferStep_unnoticed {kind : Kind} {call : Call} {copied : Nat} {task : Task} {pc : Pc}
    {effect : Effect} (beside : DevBeside hidden dev other) (concealed : hidden self = true)
    (held : pc.critical = true → dev.mutex = some self) (fails : pc.succeeds = false)
    (stepped : transferStep kind call self copied dev task pc = some effect) :
    Unnoticed hidden dev other effect := by
  cases pc with
  | lock | relock =>
      obtain ⟨locked, taken, rfl⟩ := Option.map_eq_some_iff.mp stepped
      obtain ⟨free, rfl⟩ := mutexLock_some taken
      exact ⟨rfl, rfl, beside.ownMutex concealed (.inl free) _ (.inr rfl), rfl, rfl⟩
  | addWait =>
      cases stepped
      refine ⟨by simp, ?_, beside.ownAdd concealed _, rfl, rfl⟩
      simp [HelloDev.contents]
  | test | schedule | signal =>
      simp only [transferStep] at stepped
      split_ifs at stepped <;> cases stepped <;> exact beside.unnoticed
  | setState =>
      cases stepped
      exact beside.unnoticed
  | unlockLoop | out =>
      cases stepped
      exact ⟨rfl, rfl, beside.ownMutex concealed (.inr (held rfl)) _ (.inl rfl), rfl, rfl⟩
  | copy =>
      have kept : (kind.ops.copy dev call (kind.ops.clamp call.count dev.currentLen) copied).1.contents =
          dev.contents := by
        cases kind with
        | read => rfl
        | write => exact helloWrite_copy_contents dev call _ copied
      have length := kind.copy_currentLen dev call (kind.ops.clamp call.count dev.currentLen) copied
      have silent : (kind.ops.copy dev call (kind.ops.clamp call.count dev.currentLen)
          copied).2.filterMap Event.delivery = [] := by
        cases kind <;> rfl
      have hides : DevBeside hidden
          (kind.ops.copy dev call (kind.ops.clamp call.count dev.currentLen) copied).1 other := by
        cases kind with
        | read => exact beside
        | write =>
            exact ⟨beside.length, beside.bytes.trans kept.symm, beside.mutex, beside.readers,
              beside.writers⟩
      simp only [transferStep] at stepped
      split_ifs at stepped <;> cases stepped <;> exact ⟨length, kept, hides, silent, rfl⟩
  | update | wake => simp [Pc.succeeds] at fails
  | out2 ret =>
      cases stepped
      exact ⟨rfl, rfl, beside.ownRemove concealed, rfl, rfl⟩
  | leave ret =>
      cases stepped
      exact ⟨rfl, rfl, beside, rfl, rfl⟩

end

structure Beside (hidden : Nat → Bool) (state other : State) : Prop where
  dev : DevBeside hidden state.dev other.dev
  shown : ∀ id, hidden id = false → other.tasks id = state.tasks id
  still : ∀ id, hidden id = true → other.tasks id = Task.fresh
  deliveries : other.deliveries = state.deliveries

section

variable {hidden : Nat → Bool} {state other : State} {self : Nat}

theorem Beside.setTask (beside : Beside hidden state other) (shown : hidden self = false)
    (task : Task) : Beside hidden (state.setTask self task) (other.setTask self task) where
  dev := beside.dev
  shown id visible := by
    rw [State.setTask_tasks, State.setTask_tasks, beside.shown id visible]
  still id concealed := by
    rw [State.setTask_tasks, if_neg, beside.still id concealed]
    rintro rfl
    simp [shown] at concealed
  deliveries := beside.deliveries

theorem Beside.ownTask (beside : Beside hidden state other) (concealed : hidden self = true)
    (task : Task) : Beside hidden (state.setTask self task) other where
  dev := beside.dev
  shown id visible := by
    rw [State.setTask_tasks, if_neg, beside.shown id visible]
    rintro rfl
    simp [visible] at concealed
  still := beside.still
  deliveries := beside.deliveries

theorem wakeUp_fresh (dev : HelloDev) (wakes : Option WaitQueue) (id : Nat) :
    wakeUp dev wakes id Task.fresh = Task.fresh := by
  unfold wakeUp
  split
  · rfl
  · split <;> rfl

theorem DevBeside.wakeUp {dev dev' : HelloDev} (beside : DevBeside hidden dev dev')
    (wakes : Option WaitQueue) {id : Nat} (visible : hidden id = false) (task : Task) :
    GlobalFifo.wakeUp dev' wakes id task = GlobalFifo.wakeUp dev wakes id task := by
  have member (queue : WaitQueue) : id ∈ dev'.queue queue ↔ id ∈ dev.queue queue := by
    cases queue with
    | rWait => simp [HelloDev.queue, beside.readers, visible]
    | wWait => simp [HelloDev.queue, beside.writers, visible]
  cases wakes with
  | none => rfl
  | some queue => simp only [GlobalFifo.wakeUp, member]

theorem Beside.apply (beside : Beside hidden state other) (shown : hidden self = false)
    {effect effect' : Effect} (effects : EffectBeside hidden effect effect') :
    Beside hidden (state.apply self effect) (other.apply self effect') where
  dev := effects.dev
  shown id visible := by
    by_cases same : id = self
    · subst same
      rw [State.apply_self, State.apply_self, effects.task]
    · rw [State.apply_other _ _ same, State.apply_other _ _ same, beside.shown id visible,
        effects.wakes, beside.dev.wakeUp _ visible]
  still id concealed := by
    have different : id ≠ self := by
      rintro rfl
      simp [shown] at concealed
    rw [State.apply_other _ _ different, beside.still id concealed, wakeUp_fresh]
  deliveries := by
    have before := beside.deliveries
    simp only [State.deliveries, State.apply, List.filterMap_append, effects.events] at before ⊢
    rw [before]

theorem Beside.ownApply (beside : Beside hidden state other) (concealed : hidden self = true)
    {effect : Effect} (unnoticed : Unnoticed hidden state.dev other.dev effect) :
    Beside hidden (state.apply self effect) other where
  dev := unnoticed.beside
  shown id visible := by
    have different : id ≠ self := by
      rintro rfl
      simp [visible] at concealed
    rw [State.apply_other _ _ different, unnoticed.calm, beside.shown id visible]
    rfl
  still := beside.still
  deliveries := by
    have before := beside.deliveries
    simp only [State.deliveries, State.apply, List.filterMap_append, unnoticed.silent,
      List.append_nil] at before ⊢
    exact before

theorem Beside.follows {next : State} {action : Action} (beside : Beside hidden state other)
    (invariant : StreamInvariant state) (invariant' : StreamInvariant other)
    (shown : hidden action.task = false) (stepped : step state action = some next) :
    ∃ next', step other action = some next' ∧ Beside hidden next next' := by
  obtain ⟨self, operation, rfl, idle, rfl⟩ | ⟨self, rfl, rfl⟩ | ⟨self, copied, effect, rfl, ran, rfl⟩ :=
    step_cases stepped
  · change hidden self = false at shown
    have same := beside.shown self shown
    refine ⟨_, ?_, beside.setTask shown _⟩
    simp only [step, same, idle]
  · change hidden self = false at shown
    have same := beside.shown self shown
    refine ⟨_, ?_, beside.setTask shown _⟩
    simp only [step, same]
  · change hidden self = false at shown
    have same := beside.shown self shown
    have ready' := invariant'.ready self
    rw [same] at ready'
    obtain ⟨effect', ran', effects⟩ := taskStep_beside beside.dev shown invariant.bounded
      (invariant.ready self) ready' ran
    refine ⟨_, ?_, beside.apply shown effects⟩
    simp only [step, same, ran', Option.map_some]

end

end LearnK.GlobalFifo
