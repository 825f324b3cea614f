import LearnK.GlobalFifo.Core

/-! Mutual exclusion on `dev->mutex`, and what a task outside its critical section leaves
alone.  Both are read off one statement at a time. -/

namespace LearnK.GlobalFifo

def Pc.critical : Pc → Bool
  | .addWait | .test | .setState | .unlockLoop | .copy | .update _ _ | .wake _ | .out _ => true
  | .lock | .schedule | .signal | .relock | .out2 _ | .leave _ => false

def Activity.critical : Activity → Bool
  | .idle => false
  | .transfer _ _ pc => pc.critical
  | .ioctl .clear | .ioctl .unlock => true
  | .ioctl .lock | .ioctl (.leave _) => false
  | .poll .lock => false
  | .poll .mask | .poll (.relock _) | .poll (.leave _) => true

def Task.critical (task : Task) : Bool := task.activity.critical

@[simp] theorem Task.goto_critical (task : Task) (kind : Kind) (call : Call) (pc : Pc) :
    (task.goto kind call pc).critical = pc.critical := rfl

@[simp] theorem Task.finish_critical (task : Task) : task.finish.critical = false := rfl

theorem Operation.start_not_critical (operation : Operation) : operation.start.critical = false := by
  cases operation with
  | ioctl cmd =>
      simp only [Operation.start]
      split <;> rfl
  | _ => rfl

theorem mutexLock_some {dev locked : HelloDev} {self : Nat} (taken : mutexLock dev self = some locked) :
    dev.mutex = none ∧ locked = { dev with mutex := some self } := by
  unfold mutexLock at taken
  split at taken
  · rename_i free
    exact ⟨free, (Option.some.inj taken).symm⟩
  · simp at taken

@[simp] theorem addWaitQueue_mutex (dev : HelloDev) (task : Nat) (queue : WaitQueue) :
    (addWaitQueue dev task queue).mutex = dev.mutex := by
  cases queue <;> rfl

@[simp] theorem addWaitQueue_currentLen (dev : HelloDev) (task : Nat) (queue : WaitQueue) :
    (addWaitQueue dev task queue).currentLen = dev.currentLen := by
  cases queue <;> rfl

@[simp] theorem addWaitQueue_mem (dev : HelloDev) (task : Nat) (queue : WaitQueue) :
    (addWaitQueue dev task queue).mem = dev.mem := by
  cases queue <;> rfl

@[simp] theorem Kind.copy_mutex (kind : Kind) (dev : HelloDev) (call : Call) (count copied : Nat) :
    (kind.ops.copy dev call count copied).1.mutex = dev.mutex := by
  cases kind <;> rfl

@[simp] theorem Kind.update_mutex (kind : Kind) (dev : HelloDev) (count : Nat) (data : List UInt8) :
    (kind.ops.update dev count data).1.mutex = dev.mutex := by
  cases kind <;> rfl

def KeepsMutex (self : Nat) (dev : HelloDev) (effect : Effect) : Prop :=
  (effect.task.critical = true → effect.dev.mutex = some self) ∧
    ∀ other, other ≠ self → dev.mutex = some other → effect.dev.mutex = some other

theorem keepsMutex_same {self : Nat} {dev : HelloDev} {effect : Effect}
    (same : effect.dev.mutex = dev.mutex) (held : dev.mutex = some self) :
    KeepsMutex self dev effect :=
  ⟨fun _ => same.trans held, fun _ _ owner => same.trans owner⟩

theorem keepsMutex_outside {self : Nat} {dev : HelloDev} {effect : Effect}
    (same : effect.dev.mutex = dev.mutex) (outside : effect.task.critical = false) :
    KeepsMutex self dev effect :=
  ⟨fun critical => by simp [outside] at critical, fun _ _ owner => same.trans owner⟩

theorem keepsMutex_unlock {self : Nat} {dev : HelloDev} {effect : Effect}
    (held : dev.mutex = some self) (outside : effect.task.critical = false) :
    KeepsMutex self dev effect := by
  refine ⟨fun critical => by simp [outside] at critical, ?_⟩
  intro other different owner
  rw [held, Option.some.injEq] at owner
  exact absurd owner.symm different

theorem keepsMutex_lock {self : Nat} {dev locked : HelloDev} {effect : Effect}
    (taken : mutexLock dev self = some locked) (same : effect.dev = locked) :
    KeepsMutex self dev effect := by
  obtain ⟨free, rfl⟩ := mutexLock_some taken
  refine ⟨fun _ => by rw [same], ?_⟩
  intro other _ owner
  simp [free] at owner

theorem transferStep_mutex {kind : Kind} {call : Call} {self copied : Nat} {dev : HelloDev}
    {task : Task} {pc : Pc} {effect : Effect} (held : pc.critical = true → dev.mutex = some self)
    (stepped : transferStep kind call self copied dev task pc = some effect) :
    KeepsMutex self dev effect := by
  cases pc with
  | lock | relock =>
      obtain ⟨locked, taken, rfl⟩ := Option.map_eq_some_iff.mp stepped
      exact keepsMutex_lock taken rfl
  | addWait | setState | update | wake =>
      cases stepped
      exact keepsMutex_same (by simp) (held rfl)
  | test =>
      have owner := held rfl
      simp only [transferStep] at stepped
      split_ifs at stepped <;> cases stepped <;> exact keepsMutex_same rfl owner
  | copy =>
      have owner := held rfl
      simp only [transferStep] at stepped
      split_ifs at stepped <;> cases stepped <;> exact keepsMutex_same (by simp) owner
  | schedule =>
      simp only [transferStep] at stepped
      split_ifs at stepped
      cases stepped
      exact keepsMutex_outside rfl rfl
  | signal =>
      simp only [transferStep] at stepped
      split_ifs at stepped <;> cases stepped <;> exact keepsMutex_outside rfl rfl
  | unlockLoop | out =>
      cases stepped
      exact keepsMutex_unlock (held rfl) rfl
  | out2 | leave =>
      cases stepped
      exact keepsMutex_outside rfl rfl

theorem taskStep_mutex {self copied : Nat} {dev : HelloDev} {task : Task} {effect : Effect}
    (held : task.critical = true → dev.mutex = some self)
    (stepped : taskStep self copied dev task = some effect) : KeepsMutex self dev effect := by
  unfold taskStep at stepped
  unfold Task.critical at held
  cases activity : task.activity with
  | idle => simp [activity] at stepped
  | transfer kind call pc =>
      rw [activity] at stepped held
      exact transferStep_mutex held stepped
  | ioctl pc =>
      rw [activity] at stepped held
      cases pc with
      | lock =>
          obtain ⟨locked, taken, rfl⟩ := Option.map_eq_some_iff.mp stepped
          exact keepsMutex_lock taken rfl
      | clear =>
          cases stepped
          exact keepsMutex_same rfl (held rfl)
      | unlock =>
          cases stepped
          exact keepsMutex_unlock (held rfl) rfl
      | leave =>
          cases stepped
          exact keepsMutex_outside rfl rfl
  | poll pc =>
      rw [activity] at stepped held
      cases pc with
      | lock | relock =>
          obtain ⟨locked, taken, rfl⟩ := Option.map_eq_some_iff.mp stepped
          exact keepsMutex_lock taken rfl
      | mask =>
          cases stepped
          exact keepsMutex_same rfl (held rfl)
      | leave =>
          cases stepped
          exact keepsMutex_outside rfl rfl

def Exclusive (state : State) : Prop :=
  ∀ id, (state.tasks id).critical = true → state.dev.mutex = some id

@[simp] theorem wakeUp_activity (dev : HelloDev) (wakes : Option WaitQueue) (id : Nat) (task : Task) :
    (wakeUp dev wakes id task).activity = task.activity := by
  unfold wakeUp
  split
  · rfl
  · split <;> rfl

@[simp] theorem wakeUp_critical (dev : HelloDev) (wakes : Option WaitQueue) (id : Nat) (task : Task) :
    (wakeUp dev wakes id task).critical = task.critical := by
  simp [Task.critical]

@[simp] theorem State.apply_self (state : State) (self : Nat) (effect : Effect) :
    (state.apply self effect).tasks self = effect.task := by
  simp [State.apply]

theorem State.apply_other (state : State) {self other : Nat} (effect : Effect)
    (different : other ≠ self) :
    (state.apply self effect).tasks other =
      wakeUp state.dev effect.wakes other (state.tasks other) := by
  simp [State.apply, different]

theorem step_cases {state next : State} {action : Action} (stepped : step state action = some next) :
    (∃ self operation, action = .enter self operation ∧ (state.tasks self).activity = .idle ∧
      next = state.setTask self { state.tasks self with activity := operation.start }) ∨
    (∃ self, action = .signal self ∧ next = state.setTask self
      { state.tasks self with state := .running, sigPending := true }) ∨
    ∃ self copied effect, action = .run self copied ∧
      taskStep self copied state.dev (state.tasks self) = some effect ∧
      next = state.apply self effect := by
  cases action with
  | enter self operation =>
      refine Or.inl ⟨self, operation, rfl, ?_⟩
      simp only [step] at stepped
      split at stepped
      · rename_i idle
        exact ⟨idle, (Option.some.inj stepped).symm⟩
      · simp at stepped
  | signal self => exact Or.inr (Or.inl ⟨self, rfl, (Option.some.inj stepped).symm⟩)
  | run self copied =>
      obtain ⟨effect, ran, rfl⟩ := Option.map_eq_some_iff.mp stepped
      exact Or.inr (Or.inr ⟨self, copied, effect, rfl, ran, rfl⟩)

@[simp] theorem State.setTask_dev (state : State) (self : Nat) (task : Task) :
    (state.setTask self task).dev = state.dev := rfl

@[simp] theorem State.setTask_events (state : State) (self : Nat) (task : Task) :
    (state.setTask self task).events = state.events := rfl

theorem State.setTask_tasks (state : State) (self id : Nat) (task : Task) :
    (state.setTask self task).tasks id = if id = self then task else state.tasks id := rfl

theorem exclusive_setTask {state : State} {self : Nat} {task : Task} (exclusive : Exclusive state)
    (calm : task.critical = true → (state.tasks self).critical = true) :
    Exclusive (state.setTask self task) := by
  intro id critical
  rw [State.setTask_tasks] at critical
  split at critical
  · rename_i same
    subst id
    exact exclusive self (calm critical)
  · exact exclusive id critical

theorem exclusive_step {state next : State} {action : Action} (exclusive : Exclusive state)
    (stepped : step state action = some next) : Exclusive next := by
  obtain ⟨self, operation, -, idle, rfl⟩ | ⟨self, -, rfl⟩ | ⟨self, copied, effect, -, ran, rfl⟩ :=
    step_cases stepped
  · apply exclusive_setTask exclusive
    intro critical
    simp [Task.critical, operation.start_not_critical] at critical
  · exact exclusive_setTask exclusive fun critical => critical
  · obtain ⟨own, others⟩ := taskStep_mutex (exclusive self) ran
    intro id critical
    by_cases same : id = self
    · subst id
      exact own (by simpa using critical)
    · rw [State.apply_other state effect same, wakeUp_critical] at critical
      exact others id same (exclusive id critical)

theorem exclusive_initial : Exclusive initial := by
  intro id critical
  simp [initial, Task.fresh, Task.critical, Activity.critical] at critical

theorem exclusive_unique {state : State} (exclusive : Exclusive state) {first second : Nat}
    (firstCritical : (state.tasks first).critical = true)
    (secondCritical : (state.tasks second).critical = true) : first = second := by
  have owner := exclusive first firstCritical
  rw [exclusive second secondCritical] at owner
  exact (Option.some.inj owner).symm

end LearnK.GlobalFifo
