import LearnK.GlobalFifo.Exclusion

/-! The lock discipline on `dev->mutex`: who may call `mutex_lock`, `mutex_unlock` and return.
`hello_poll` ends with a second `mutex_lock` where every other path unlocks. -/

namespace LearnK.GlobalFifo

open StepMachine

def Activity.locking : Activity → Bool
  | .transfer _ _ .lock | .transfer _ _ .relock => true
  | .ioctl .lock => true
  | .poll .lock | .poll (.relock _) => true
  | _ => false

def Activity.unlocking : Activity → Bool
  | .transfer _ _ .unlockLoop | .transfer _ _ (.out _) => true
  | .ioctl .unlock => true
  | _ => false

def Activity.returning : Activity → Bool
  | .idle => true
  | .transfer _ _ (.leave _) => true
  | .ioctl (.leave _) => true
  | .poll (.leave _) => true
  | _ => false

/-- No task waits for a mutex it holds, unlocks one it does not hold, or returns with it. -/
def Disciplined (state : State) : Prop :=
  ∀ id, ((state.tasks id).activity.locking = true → state.dev.mutex ≠ some id) ∧
    ((state.tasks id).activity.unlocking = true → state.dev.mutex = some id) ∧
    ((state.tasks id).activity.returning = true → state.dev.mutex ≠ some id)

def Activity.masking : Activity → Bool
  | .poll .mask => true
  | _ => false

def Activity.relocking : Activity → Bool
  | .poll (.relock _) => true
  | _ => false

def ReachesRelock (state : State) : Action → Prop
  | .run self _ => (state.tasks self).activity.masking = true
  | _ => False

instance (state : State) : ∀ action, Decidable (ReachesRelock state action)
  | .run self _ => inferInstanceAs (Decidable ((state.tasks self).activity.masking = true))
  | .enter _ _ => isFalse id
  | .signal _ => isFalse id

inductive MutexStep (self : Nat) (dev : HelloDev) (inside : Bool) (effect : Effect) : Prop
  | locks (free : dev.mutex = none) (taken : effect.dev.mutex = some self)
      (after : effect.task.critical = true)
  | keeps (same : effect.dev.mutex = dev.mutex) (after : effect.task.critical = inside)
  | unlocks (before : inside = true) (released : effect.dev.mutex = none)
      (after : effect.task.critical = false)

theorem transferStep_mutexStep {kind : Kind} {call : Call} {self copied : Nat} {dev : HelloDev}
    {task : Task} {pc : Pc} {effect : Effect}
    (stepped : transferStep kind call self copied dev task pc = some effect) :
    MutexStep self dev pc.critical effect := by
  cases pc with
  | lock | relock =>
      obtain ⟨locked, taken, rfl⟩ := Option.map_eq_some_iff.mp stepped
      obtain ⟨free, rfl⟩ := mutexLock_some taken
      exact .locks free rfl rfl
  | addWait | setState | update | wake =>
      cases stepped
      exact .keeps (by simp) rfl
  | test =>
      simp only [transferStep] at stepped
      split_ifs at stepped <;> cases stepped <;> exact .keeps rfl rfl
  | copy =>
      simp only [transferStep] at stepped
      split_ifs at stepped <;> cases stepped <;> exact .keeps (by simp) rfl
  | schedule | signal =>
      simp only [transferStep] at stepped
      split_ifs at stepped <;> cases stepped <;> exact .keeps rfl rfl
  | unlockLoop | out =>
      cases stepped
      exact .unlocks rfl rfl rfl
  | out2 | leave =>
      cases stepped
      exact .keeps rfl rfl

theorem taskStep_mutexStep {self copied : Nat} {dev : HelloDev} {task : Task} {effect : Effect}
    (notLeaving : ∀ mask, task.activity ≠ .poll (.leave mask))
    (stepped : taskStep self copied dev task = some effect) :
    MutexStep self dev task.critical effect := by
  unfold taskStep at stepped
  unfold Task.critical
  cases activity : task.activity with
  | idle => simp [activity] at stepped
  | transfer kind call pc =>
      rw [activity] at stepped
      exact transferStep_mutexStep stepped
  | ioctl pc =>
      rw [activity] at stepped
      cases pc with
      | lock =>
          obtain ⟨locked, taken, rfl⟩ := Option.map_eq_some_iff.mp stepped
          obtain ⟨free, rfl⟩ := mutexLock_some taken
          exact .locks free rfl rfl
      | clear | leave =>
          cases stepped
          exact .keeps rfl rfl
      | unlock =>
          cases stepped
          exact .unlocks rfl rfl rfl
  | poll pc =>
      rw [activity] at stepped
      cases pc with
      | lock | relock =>
          obtain ⟨locked, taken, rfl⟩ := Option.map_eq_some_iff.mp stepped
          obtain ⟨free, rfl⟩ := mutexLock_some taken
          exact .locks free rfl rfl
      | mask =>
          cases stepped
          exact .keeps rfl rfl
      | leave mask => exact absurd activity (notLeaving mask)

theorem transferStep_activity {kind : Kind} {call : Call} {self copied : Nat} {dev : HelloDev}
    {task : Task} {pc : Pc} {effect : Effect}
    (stepped : transferStep kind call self copied dev task pc = some effect) :
    effect.task.activity = .idle ∨ ∃ after, effect.task.activity = .transfer kind call after := by
  cases pc with
  | lock | relock =>
      obtain ⟨locked, -, rfl⟩ := Option.map_eq_some_iff.mp stepped
      exact .inr ⟨_, rfl⟩
  | addWait | setState | update | wake | unlockLoop | out | out2 =>
      cases stepped
      exact .inr ⟨_, rfl⟩
  | test | copy | schedule | signal =>
      simp only [transferStep] at stepped
      split_ifs at stepped <;> cases stepped <;> exact .inr ⟨_, rfl⟩
  | leave =>
      cases stepped
      exact .inl rfl

theorem taskStep_poll {self copied : Nat} {dev : HelloDev} {task : Task} {effect : Effect}
    (stepped : taskStep self copied dev task = some effect) :
    (effect.task.activity.relocking = true ↔ task.activity.masking = true) ∧
      ((∃ mask, effect.task.activity = .poll (.leave mask)) →
        task.critical = true ∧ dev.mutex = none) := by
  unfold taskStep at stepped
  cases activity : task.activity with
  | idle => simp [activity] at stepped
  | transfer kind call pc =>
      rw [activity] at stepped
      rcases transferStep_activity stepped with idle | ⟨after, moved⟩
      · simp [idle, Activity.relocking, Activity.masking]
      · simp [moved, Activity.relocking, Activity.masking]
  | ioctl pc =>
      rw [activity] at stepped
      cases pc with
      | lock =>
          obtain ⟨locked, -, rfl⟩ := Option.map_eq_some_iff.mp stepped
          simp [Activity.relocking, Activity.masking]
      | clear | unlock | leave =>
          cases stepped
          simp [Activity.relocking, Activity.masking, Task.finish]
  | poll pc =>
      rw [activity] at stepped
      cases pc with
      | lock =>
          obtain ⟨locked, -, rfl⟩ := Option.map_eq_some_iff.mp stepped
          simp [Activity.relocking, Activity.masking]
      | mask =>
          cases stepped
          simp [Activity.relocking, Activity.masking]
      | relock mask =>
          obtain ⟨locked, taken, rfl⟩ := Option.map_eq_some_iff.mp stepped
          refine ⟨by simp [Activity.relocking, Activity.masking], fun _ => ⟨?_, ?_⟩⟩
          · simp [Task.critical, activity, Activity.critical]
          · exact (mutexLock_some taken).1
      | leave =>
          cases stepped
          simp [Activity.relocking, Activity.masking, Task.finish]

/-- The mutex is held exactly by the task in its critical section, and no `hello_poll` call gets
past its second `mutex_lock`. -/
structure Owned (state : State) : Prop where
  holder : ∀ id, state.dev.mutex = some id ↔ (state.tasks id).critical = true
  polling : ∀ id mask, (state.tasks id).activity ≠ .poll (.leave mask)

structure Quiet (state : State) : Prop where
  idle : ∀ id, (state.tasks id).activity = .idle
  free : state.dev.mutex = none

theorem Quiet.owned {state : State} (quiet : Quiet state) : Owned state where
  holder id := by simp [quiet.free, Task.critical, quiet.idle id, Activity.critical]
  polling id mask := by simp [quiet.idle id]

theorem Operation.start_not_leaving (operation : Operation) (mask : Nat) :
    operation.start ≠ .poll (.leave mask) := by
  cases operation with
  | ioctl cmd => simp [Operation.start]
  | _ => simp [Operation.start]

theorem Operation.start_not_relocking (operation : Operation) :
    operation.start.relocking = false := by
  cases operation with
  | ioctl cmd =>
      simp only [Operation.start]
      split <;> rfl
  | _ => rfl

theorem owned_setTask {state : State} {self : Nat} {task : Task} (owned : Owned state)
    (same : task.critical = (state.tasks self).critical)
    (notLeaving : ∀ mask, task.activity ≠ .poll (.leave mask)) :
    Owned (state.setTask self task) := by
  constructor
  · intro id
    rw [State.setTask_dev, State.setTask_tasks, owned.holder id]
    split
    · rename_i here
      rw [here, same]
    · rfl
  · intro id mask
    rw [State.setTask_tasks]
    split
    · exact notLeaving mask
    · exact owned.polling id mask

theorem MutexStep.holder {self : Nat} {dev : HelloDev} {inside : Bool} {effect : Effect}
    (moved : MutexStep self dev inside effect) (held : dev.mutex = some self ↔ inside = true)
    (id : Nat) : effect.dev.mutex = some id ↔
      if id = self then effect.task.critical = true else dev.mutex = some id := by
  by_cases same : id = self
  · subst same
    rw [if_pos rfl]
    cases moved with
    | locks free taken after => simp [taken, after]
    | keeps unchanged after => rw [unchanged, after, held]
    | unlocks before released after => simp [released, after]
  · rw [if_neg same]
    cases moved with
    | locks free taken after => simp [free, taken, Ne.symm same]
    | keeps unchanged after => rw [unchanged]
    | unlocks before released after => simp [released, held.mpr before, Ne.symm same]

theorem owned_step {state next : State} {action : Action} (owned : Owned state)
    (stepped : step state action = some next) : Owned next := by
  obtain ⟨self, operation, -, idle, rfl⟩ | ⟨self, -, rfl⟩ | ⟨self, copied, effect, -, ran, rfl⟩ :=
    step_cases stepped
  · refine owned_setTask owned ?_ operation.start_not_leaving
    rw [Task.critical, Task.critical, idle]
    exact operation.start_not_critical
  · exact owned_setTask owned rfl (owned.polling self)
  · have moved := taskStep_mutexStep (owned.polling self) ran
    constructor
    · intro id
      rw [State.apply, moved.holder (owned.holder self) id]
      by_cases same : id = self
      · simp [same]
      · simp [same, owned.holder id]
    · intro id mask leaving
      by_cases same : id = self
      · subst same
        rw [State.apply_self] at leaving
        obtain ⟨critical, free⟩ := (taskStep_poll ran).2 ⟨mask, leaving⟩
        rw [← owned.holder id, free] at critical
        simp at critical
      · rw [State.apply_other state effect same, wakeUp_activity] at leaving
        exact owned.polling id mask leaving

theorem Activity.locking_outside {activity : Activity} (locking : activity.locking = true) :
    activity.critical = activity.relocking := by
  match activity, locking with
  | .transfer _ _ .lock, _ | .transfer _ _ .relock, _ => rfl
  | .ioctl .lock, _ => rfl
  | .poll .lock, _ | .poll (.relock _), _ => rfl

theorem Activity.unlocking_critical {activity : Activity} (unlocking : activity.unlocking = true) :
    activity.critical = true := by
  match activity, unlocking with
  | .transfer _ _ .unlockLoop, _ | .transfer _ _ (.out _), _ => rfl
  | .ioctl .unlock, _ => rfl

theorem Activity.returning_outside {activity : Activity} (returning : activity.returning = true)
    (notLeaving : ∀ mask, activity ≠ .poll (.leave mask)) : activity.critical = false := by
  match activity, returning with
  | .idle, _ => rfl
  | .transfer _ _ (.leave _), _ => rfl
  | .ioctl (.leave _), _ => rfl
  | .poll (.leave mask), _ => exact absurd rfl (notLeaving mask)

theorem Activity.relocking_locking {activity : Activity} (relocking : activity.relocking = true) :
    activity.locking = true := by
  match activity, relocking with
  | .poll (.relock _), _ => rfl

theorem Owned.disciplined_iff {state : State} (owned : Owned state) :
    Disciplined state ↔ ∀ id, (state.tasks id).activity.relocking = false := by
  constructor
  · intro disciplined id
    by_contra relocking
    simp only [Bool.not_eq_false] at relocking
    have locking := Activity.relocking_locking relocking
    apply (disciplined id).1 locking
    rw [owned.holder, Task.critical, Activity.locking_outside locking, relocking]
  · intro calm id
    refine ⟨?_, ?_, ?_⟩
    · intro locking
      rw [Ne, owned.holder, Task.critical, Activity.locking_outside locking, calm id]
      simp
    · intro unlocking
      exact (owned.holder id).mpr (Activity.unlocking_critical unlocking)
    · intro returning
      rw [Ne, owned.holder, Task.critical,
        Activity.returning_outside returning (owned.polling id)]
      simp

theorem disciplined_step_iff {state next : State} {action : Action} (owned : Owned state)
    (disciplined : Disciplined state) (stepped : step state action = some next) :
    Disciplined next ↔ ¬ReachesRelock state action := by
  have calm := owned.disciplined_iff.mp disciplined
  rw [(owned_step owned stepped).disciplined_iff]
  obtain ⟨self, operation, rfl, -, rfl⟩ | ⟨self, rfl, rfl⟩ | ⟨self, copied, effect, rfl, ran, rfl⟩ :=
    step_cases stepped
  · refine iff_of_true ?_ id
    intro id
    rw [State.setTask_tasks]
    split
    · exact operation.start_not_relocking
    · exact calm id
  · refine iff_of_true ?_ id
    intro id
    rw [State.setTask_tasks]
    split
    · exact calm self
    · exact calm id
  · have moved := (taskStep_poll ran).1
    constructor
    · intro later reaches
      have relocking := moved.mpr reaches
      have still := later self
      rw [State.apply_self, relocking] at still
      simp at still
    · intro stays id
      by_cases same : id = self
      · rw [same, State.apply_self]
        exact Bool.eq_false_iff.mpr fun relocking => stays (moved.mp relocking)
      · rw [State.apply_other state effect same, wakeUp_activity]
        exact calm id

/-- From any device with nobody inside, the lock discipline holds throughout a run exactly when
no `hello_poll` call of it reaches its second `mutex_lock`. -/
theorem helloDev_disciplined_iff (start : State) (quiet : Quiet start) (actions : List Action) :
    Always step Disciplined start actions ↔
      EachStep step (fun state action => ¬ReachesRelock state action) start actions := by
  have owned := quiet.owned
  refine always_iff_eachStep ?_
    (always_invariant (fun _ _ _ owned stepped => owned_step owned stepped) owned actions) ?_
  · intro state action next disciplined owned stepped _
    exact disciplined_step_iff owned disciplined stepped
  · rw [owned.disciplined_iff]
    intro id
    rw [quiet.idle id]
    rfl

theorem quiet_initial : Quiet initial := ⟨fun _ => rfl, rfl⟩

theorem helloDev_disciplined_iff_oneClear :
    Always step Disciplined initial (.enter 0 (.ioctl memClear) :: List.replicate 4 (.run 0 0)) :=
  (helloDev_disciplined_iff initial quiet_initial _).mpr (by decide)

theorem helloPoll_waits_for_itself : ∃ state,
    run step initial [.enter 0 .poll, .run 0 0, .run 0 0] = some state ∧
      (state.tasks 0).activity.locking = true ∧ state.dev.mutex = some 0 ∧
      ¬Disciplined state ∧ ∀ copied, step state (.run 0 copied) = none := by
  refine ⟨_, rfl, rfl, rfl, ?_, fun copied => rfl⟩
  intro disciplined
  exact (disciplined 0).1 rfl rfl

end LearnK.GlobalFifo
