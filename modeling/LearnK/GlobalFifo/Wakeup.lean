import LearnK.GlobalFifo.Stream

/-! No lost wake-up: a task that is still `TASK_INTERRUPTIBLE` in a wait loop either has
nothing to do, or somebody between its update and its `wake_up_interruptible` is about to
wake it. -/

namespace LearnK.GlobalFifo

open StepMachine

def Pc.inWaitLoop : Pc → Bool
  | .test | .setState | .unlockLoop | .schedule | .signal | .relock => true
  | _ => false

def Pc.maySleep : Pc → Bool
  | .unlockLoop | .schedule => true
  | _ => false

def Pc.queued : Pc → Bool
  | .lock | .addWait | .leave _ => false
  | _ => true

def Task.wakesAt (queue : WaitQueue) (task : Task) : Prop :=
  ∃ kind call count, task.activity = .transfer kind call (.wake count) ∧ kind.ops.wakes = queue

def State.waking (state : State) (queue : WaitQueue) : Prop :=
  ∃ waker, (state.tasks waker).wakesAt queue

def Task.Calm (dev : HelloDev) (waking : WaitQueue → Prop) (id : Nat) (task : Task) : Prop :=
  match task.activity with
  | .transfer kind _ pc =>
      (pc.queued = true → id ∈ dev.queue kind.ops.joins) ∧
      (pc = .setState → kind.ops.mustWait dev.currentLen = true) ∧
      (task.state = .interruptible → pc.maySleep = true ∧
        (kind.ops.mustWait dev.currentLen = true ∨ waking kind.ops.joins))
  | _ => task.state = .running

theorem Task.wakesAt_critical {queue : WaitQueue} {task : Task} (wakes : task.wakesAt queue) :
    task.critical = true := by
  obtain ⟨kind, call, count, activity, -⟩ := wakes
  simp [Task.critical, activity, Activity.critical, Pc.critical]

theorem Pc.queued_of_maySleep {pc : Pc} (sleeps : pc.maySleep = true) : pc.queued = true := by
  cases pc <;> simp_all [Pc.maySleep, Pc.queued]

theorem addWaitQueue_queue (dev : HelloDev) (self id : Nat) (joined queue : WaitQueue) :
    id ∈ (addWaitQueue dev self joined).queue queue ↔
      (id = self ∧ joined = queue) ∨ id ∈ dev.queue queue := by
  cases joined <;> cases queue <;> simp [addWaitQueue, HelloDev.queue]

theorem removeWaitQueue_queue (dev : HelloDev) {self id : Nat} (queue : WaitQueue)
    (different : id ≠ self) :
    id ∈ (removeWaitQueue dev self).queue queue ↔ id ∈ dev.queue queue := by
  cases queue <;> simp [removeWaitQueue, HelloDev.queue, List.mem_erase_of_ne different]

@[simp] theorem Kind.copy_queue (kind : Kind) (dev : HelloDev) (call : Call) (count copied : Nat)
    (queue : WaitQueue) :
    (kind.ops.copy dev call count copied).1.queue queue = dev.queue queue := by
  cases kind <;> cases queue <;> rfl

@[simp] theorem Kind.copy_currentLen (kind : Kind) (dev : HelloDev) (call : Call)
    (count copied : Nat) :
    (kind.ops.copy dev call count copied).1.currentLen = dev.currentLen := by
  cases kind <;> rfl

@[simp] theorem Kind.update_queue (kind : Kind) (dev : HelloDev) (count : Nat) (data : List UInt8)
    (queue : WaitQueue) :
    (kind.ops.update dev count data).1.queue queue = dev.queue queue := by
  cases kind <;> cases queue <;> rfl

/-- What one statement of `mover` guarantees to the tasks that wait: their entries stay, a task
whose condition is lifted is about to be woken, and a task at its wake-up call does wake. -/
structure Considerate (mover : Nat) (dev : HelloDev) (task : Task) (effect : Effect) : Prop where
  keeps : ∀ id queue, id ≠ mover → id ∈ dev.queue queue → id ∈ effect.dev.queue queue
  lifts : ∀ kind : Kind, kind.ops.mustWait dev.currentLen = true →
    kind.ops.mustWait effect.dev.currentLen = true ∨ effect.task.wakesAt kind.ops.joins
  wakes : ∀ queue, task.wakesAt queue → effect.wakes = some queue

theorem considerate_same {self : Nat} {dev : HelloDev} {task : Task} {effect : Effect}
    (keeps : ∀ id queue, id ≠ self → id ∈ dev.queue queue → id ∈ effect.dev.queue queue)
    (sameLen : effect.dev.currentLen = dev.currentLen)
    (notWaking : ∀ queue, ¬task.wakesAt queue) : Considerate self dev task effect where
  keeps := keeps
  lifts kind waits := Or.inl (by rw [sameLen]; exact waits)
  wakes queue waking := absurd waking (notWaking queue)

theorem considerate_sameQueues {self : Nat} {dev : HelloDev} {task : Task} {effect : Effect}
    (readers : effect.dev.rWait = dev.rWait) (writers : effect.dev.wWait = dev.wWait)
    (sameLen : effect.dev.currentLen = dev.currentLen)
    (notWaking : ∀ queue, ¬task.wakesAt queue) : Considerate self dev task effect := by
  refine considerate_same ?_ sameLen notWaking
  intro id queue _ member
  cases queue with
  | rWait => simpa only [HelloDev.queue, readers] using member
  | wWait => simpa only [HelloDev.queue, writers] using member

theorem Kind.update_lifts (kind : Kind) {dev : HelloDev} {call : Call} {count : Nat}
    {data : List UInt8} {task : Task} (ready : kind.Ready dev count data) (waiting : Kind)
    (waits : waiting.ops.mustWait dev.currentLen = true) :
    waiting.ops.mustWait (kind.ops.update dev count data).1.currentLen = true ∨
      (task.goto kind call (.wake count)).wakesAt waiting.ops.joins := by
  cases kind with
  | read =>
      cases waiting with
      | read =>
          left
          simp only [Kind.ops, helloRead, beq_iff_eq] at waits ⊢
          omega
      | write => exact Or.inr ⟨.read, call, count, rfl, rfl⟩
  | write =>
      cases waiting with
      | read => exact Or.inr ⟨.write, call, count, rfl, rfl⟩
      | write =>
          left
          have fits := ready.1
          simp only [Kind.ops, helloWrite, beq_iff_eq] at waits ⊢
          omega

theorem Task.wakesAt_transfer {queue : WaitQueue} {task : Task} {kind : Kind} {call : Call} {pc : Pc}
    (activity : task.activity = .transfer kind call pc) (waking : task.wakesAt queue) :
    ∃ count, pc = .wake count ∧ kind.ops.wakes = queue := by
  obtain ⟨kind', call', count, same, wakes⟩ := waking
  rw [activity] at same
  cases same
  exact ⟨count, rfl, wakes⟩

theorem transferStep_considerate {kind : Kind} {call : Call} {self copied : Nat} {dev : HelloDev}
    {task : Task} {pc : Pc} {effect : Effect} (activity : task.activity = .transfer kind call pc)
    (ready : task.Ready dev)
    (stepped : transferStep kind call self copied dev task pc = some effect) :
    Considerate self dev task effect := by
  have notWaking (other : ∀ count, pc ≠ .wake count) (queue : WaitQueue) :
      ¬task.wakesAt queue := by
    intro waking
    obtain ⟨count, same, -⟩ := Task.wakesAt_transfer activity waking
    exact other count same
  cases pc with
  | lock | relock =>
      obtain ⟨locked, taken, rfl⟩ := Option.map_eq_some_iff.mp stepped
      obtain ⟨-, rfl⟩ := mutexLock_some taken
      exact considerate_sameQueues rfl rfl rfl (notWaking (by simp))
  | addWait =>
      cases stepped
      refine considerate_same ?_ (by simp) (notWaking (by simp))
      intro id queue _ member
      exact (addWaitQueue_queue dev self id _ queue).mpr (Or.inr member)
  | test | schedule | signal =>
      simp only [transferStep] at stepped
      split_ifs at stepped <;> cases stepped <;>
        exact considerate_sameQueues rfl rfl rfl (notWaking (by simp))
  | setState =>
      cases stepped
      exact considerate_sameQueues rfl rfl rfl (notWaking (by simp))
  | unlockLoop | out =>
      cases stepped
      exact considerate_sameQueues rfl rfl rfl (notWaking (by simp))
  | leave =>
      cases stepped
      exact considerate_sameQueues rfl rfl rfl (notWaking (by simp))
  | out2 =>
      cases stepped
      refine considerate_same ?_ rfl (notWaking (by simp))
      intro id queue different member
      exact (removeWaitQueue_queue dev queue different).mpr member
  | copy =>
      simp only [transferStep] at stepped
      split_ifs at stepped <;> cases stepped <;>
        exact considerate_same (fun _ _ _ member => by simpa using member) (by simp)
          (notWaking (by simp))
  | update count data =>
      cases stepped
      have own : kind.Ready dev count data := by simpa [Task.Ready, activity] using ready
      exact {
        keeps := fun _ _ _ member => by simpa using member
        lifts := fun waiting waits => kind.update_lifts own waiting waits
        wakes := fun queue waking => absurd waking (notWaking (by simp) queue)
      }
  | wake count =>
      cases stepped
      exact {
        keeps := fun _ _ _ member => member
        lifts := fun _ waits => Or.inl waits
        wakes := fun queue waking => by
          obtain ⟨_, -, wakes⟩ := Task.wakesAt_transfer activity waking
          simp [wakes]
      }

theorem taskStep_considerate {self copied : Nat} {dev : HelloDev} {task : Task} {effect : Effect}
    (ready : task.Ready dev) (stepped : taskStep self copied dev task = some effect) :
    Considerate self dev task effect := by
  unfold taskStep at stepped
  cases activity : task.activity with
  | idle => simp [activity] at stepped
  | transfer kind call pc =>
      rw [activity] at stepped
      exact transferStep_considerate activity ready stepped
  | ioctl pc =>
      have notWaking (queue : WaitQueue) : ¬task.wakesAt queue := by
        rintro ⟨kind, call, count, same, -⟩
        simp [activity] at same
      rw [activity] at stepped
      cases pc with
      | lock =>
          obtain ⟨locked, taken, rfl⟩ := Option.map_eq_some_iff.mp stepped
          obtain ⟨-, rfl⟩ := mutexLock_some taken
          exact considerate_sameQueues rfl rfl rfl notWaking
      | clear | unlock | leave =>
          cases stepped
          exact considerate_sameQueues rfl rfl rfl notWaking
  | poll pc =>
      have notWaking (queue : WaitQueue) : ¬task.wakesAt queue := by
        rintro ⟨kind, call, count, same, -⟩
        simp [activity] at same
      rw [activity] at stepped
      cases pc with
      | lock | relock =>
          obtain ⟨locked, taken, rfl⟩ := Option.map_eq_some_iff.mp stepped
          obtain ⟨-, rfl⟩ := mutexLock_some taken
          exact considerate_sameQueues rfl rfl rfl notWaking
      | mask | leave =>
          cases stepped
          exact considerate_sameQueues rfl rfl rfl notWaking

theorem calm_awake {dev : HelloDev} {waking : WaitQueue → Prop} {id : Nat} {task : Task}
    {kind : Kind} {call : Call} {pc : Pc} (awake : task.state = .running)
    (queued : pc.queued = true → id ∈ dev.queue kind.ops.joins)
    (tested : pc = .setState → kind.ops.mustWait dev.currentLen = true) :
    (task.goto kind call pc).Calm dev waking id :=
  ⟨queued, tested, fun sleeping => by simp [Task.goto, awake] at sleeping⟩

theorem transferStep_calm {kind : Kind} {call : Call} {self copied : Nat} {dev : HelloDev}
    {task : Task} {pc : Pc} {effect : Effect} {waking waking' : WaitQueue → Prop}
    (activity : task.activity = .transfer kind call pc) (calm : task.Calm dev waking self)
    (persist : ∀ queue, ¬task.wakesAt queue → waking queue → waking' queue)
    (stepped : transferStep kind call self copied dev task pc = some effect) :
    effect.task.Calm effect.dev waking' self := by
  obtain ⟨queued, tested, sleeps⟩ : (pc.queued = true → self ∈ dev.queue kind.ops.joins) ∧
      (pc = .setState → kind.ops.mustWait dev.currentLen = true) ∧
      (task.state = .interruptible → pc.maySleep = true ∧
        (kind.ops.mustWait dev.currentLen = true ∨ waking kind.ops.joins)) := by
    simpa [Task.Calm, activity] using calm
  have awake (still : pc.maySleep = false) : task.state = .running := by
    cases state : task.state with
    | running => rfl
    | interruptible => simp [still] at sleeps; exact absurd state sleeps
  cases pc with
  | lock =>
      obtain ⟨locked, taken, rfl⟩ := Option.map_eq_some_iff.mp stepped
      exact calm_awake (awake rfl) (by simp [Pc.queued]) (by simp)
  | addWait =>
      cases stepped
      refine calm_awake (awake rfl) (fun _ => ?_) (by simp)
      exact (addWaitQueue_queue dev self self _ _).mpr (Or.inl ⟨rfl, rfl⟩)
  | test =>
      simp only [transferStep] at stepped
      split_ifs at stepped with waits nonblock
      · cases stepped
        exact calm_awake (awake rfl) (fun _ => queued rfl) (by simp)
      · cases stepped
        exact calm_awake (awake rfl) (fun _ => queued rfl) (fun _ => waits)
      · cases stepped
        exact calm_awake (awake rfl) (fun _ => queued rfl) (by simp)
  | setState =>
      cases stepped
      exact ⟨fun _ => queued rfl, by simp, fun _ => ⟨rfl, Or.inl (tested rfl)⟩⟩
  | unlockLoop =>
      cases stepped
      have entry : self ∈ (mutexUnlock dev).queue kind.ops.joins := by
        cases kind <;> exact queued rfl
      refine ⟨fun _ => entry, by simp, fun sleeping => ⟨rfl, ?_⟩⟩
      rcases (sleeps sleeping).2 with waits | waked
      · exact Or.inl waits
      · refine Or.inr (persist _ ?_ waked)
        intro wakes
        obtain ⟨count, same, -⟩ := Task.wakesAt_transfer activity wakes
        simp at same
  | schedule =>
      simp only [transferStep] at stepped
      split_ifs at stepped
      cases stepped
      exact calm_awake rfl (fun _ => queued rfl) (by simp)
  | signal =>
      simp only [transferStep] at stepped
      split_ifs at stepped <;> cases stepped <;>
        exact calm_awake (awake rfl) (fun _ => queued rfl) (by simp)
  | relock =>
      obtain ⟨locked, taken, rfl⟩ := Option.map_eq_some_iff.mp stepped
      obtain ⟨-, rfl⟩ := mutexLock_some taken
      exact calm_awake (awake rfl) (fun _ => by cases kind <;> exact queued rfl) (by simp)
  | copy =>
      simp only [transferStep] at stepped
      split_ifs at stepped <;> cases stepped <;>
        exact calm_awake (awake rfl) (fun _ => by simpa using queued rfl) (by simp)
  | update count data =>
      cases stepped
      exact calm_awake (awake rfl) (fun _ => by simpa using queued rfl) (by simp)
  | wake count =>
      cases stepped
      exact calm_awake (awake rfl) (fun _ => queued rfl) (by simp)
  | out ret =>
      cases stepped
      exact calm_awake (awake rfl) (fun _ => by cases kind <;> exact queued rfl) (by simp)
  | out2 ret =>
      cases stepped
      exact calm_awake (awake rfl) (by simp [Pc.queued]) (by simp)
  | leave ret =>
      cases stepped
      rfl

theorem taskStep_calm {self copied : Nat} {dev : HelloDev} {task : Task} {effect : Effect}
    {waking waking' : WaitQueue → Prop} (calm : task.Calm dev waking self)
    (persist : ∀ queue, ¬task.wakesAt queue → waking queue → waking' queue)
    (stepped : taskStep self copied dev task = some effect) :
    effect.task.Calm effect.dev waking' self := by
  unfold taskStep at stepped
  cases activity : task.activity with
  | idle => simp [activity] at stepped
  | transfer kind call pc =>
      rw [activity] at stepped
      exact transferStep_calm activity calm persist stepped
  | ioctl pc =>
      have awake : task.state = .running := by simpa [Task.Calm, activity] using calm
      rw [activity] at stepped
      cases pc with
      | lock =>
          obtain ⟨locked, taken, rfl⟩ := Option.map_eq_some_iff.mp stepped
          exact awake
      | clear | unlock | leave =>
          cases stepped
          exact awake
  | poll pc =>
      have awake : task.state = .running := by simpa [Task.Calm, activity] using calm
      rw [activity] at stepped
      cases pc with
      | lock | relock =>
          obtain ⟨locked, taken, rfl⟩ := Option.map_eq_some_iff.mp stepped
          exact awake
      | mask | leave =>
          cases stepped
          exact awake

structure WakeInvariant (state : State) : Prop where
  stream : StreamInvariant state
  calm : ∀ id, (state.tasks id).Calm state.dev state.waking id

theorem wakeInvariant_initial : WakeInvariant initial := ⟨streamInvariant_initial, fun _ => rfl⟩

theorem wakeUp_interruptible {dev : HelloDev} {wakes : Option WaitQueue} {id : Nat} {task : Task}
    (sleeping : (wakeUp dev wakes id task).state = .interruptible) :
    task.state = .interruptible ∧ ∀ queue, wakes = some queue → id ∉ dev.queue queue := by
  unfold wakeUp at sleeping
  split at sleeping
  · exact ⟨sleeping, by simp⟩
  · split at sleeping
    · simp at sleeping
    · rename_i absent
      refine ⟨sleeping, ?_⟩
      rintro queue same
      cases same
      exact absent

theorem waking_apply {state : State} {self : Nat} {effect : Effect} {queue : WaitQueue}
    (notSelf : ¬(state.tasks self).wakesAt queue) (waking : state.waking queue) :
    (state.apply self effect).waking queue := by
  obtain ⟨waker, wakes⟩ := waking
  have different : waker ≠ self := by
    intro same
    exact notSelf (same ▸ wakes)
  refine ⟨waker, ?_⟩
  rw [State.apply_other state effect different]
  simpa [Task.wakesAt] using wakes

theorem calm_apply_other {state : State} {self id : Nat} {effect : Effect}
    (considerate : Considerate self state.dev (state.tasks self) effect)
    (different : id ≠ self)
    (steady : (state.tasks id).critical = true → effect.dev.currentLen = state.dev.currentLen)
    (calm : (state.tasks id).Calm state.dev state.waking id) :
    ((state.apply self effect).tasks id).Calm effect.dev (state.apply self effect).waking id := by
  rw [State.apply_other state effect different]
  unfold Task.Calm at calm ⊢
  rw [wakeUp_activity]
  cases activity : (state.tasks id).activity with
  | transfer kind call pc =>
      simp only [activity] at calm ⊢
      obtain ⟨queued, tested, sleeps⟩ := calm
      refine ⟨fun entry => considerate.keeps id _ different (queued entry), ?_, ?_⟩
      · intro same
        have critical : (state.tasks id).critical = true := by
          simp [Task.critical, activity, same, Activity.critical, Pc.critical]
        rw [steady critical]
        exact tested same
      · intro sleeping
        obtain ⟨asleep, notWoken⟩ := wakeUp_interruptible sleeping
        obtain ⟨may, reason⟩ := sleeps asleep
        refine ⟨may, ?_⟩
        rcases reason with waits | waking
        · rcases considerate.lifts kind waits with still | wakes
          · exact Or.inl still
          · exact Or.inr ⟨self, by rwa [State.apply_self]⟩
        · refine Or.inr (waking_apply ?_ waking)
          intro wakes
          exact notWoken _ (considerate.wakes _ wakes) (queued (Pc.queued_of_maySleep may))
  | _ =>
      simp only [activity] at calm ⊢
      unfold wakeUp
      split
      · exact calm
      · split
        · rfl
        · exact calm

theorem wakeInvariant_run {state : State} {self copied : Nat} {effect : Effect}
    (invariant : WakeInvariant state) (stream : StreamInvariant (state.apply self effect))
    (ran : taskStep self copied state.dev (state.tasks self) = some effect) :
    WakeInvariant (state.apply self effect) := by
  refine ⟨stream, ?_⟩
  intro id
  by_cases same : id = self
  · subst id
    rw [State.apply_self]
    exact taskStep_calm (invariant.calm self) (fun _ notSelf waking => waking_apply notSelf waking) ran
  · have considerate := taskStep_considerate (invariant.stream.ready self) ran
    refine calm_apply_other considerate same ?_ (invariant.calm id)
    intro critical
    have outside : (state.tasks self).critical = false := by
      by_contra inside
      exact same (exclusive_unique invariant.stream.exclusive critical (by simpa using inside))
    exact (taskStep_outside outside ran).1

theorem waking_setTask {state : State} {self : Nat} {task : Task} {queue : WaitQueue}
    (kept : (state.tasks self).wakesAt queue → task.wakesAt queue) (waking : state.waking queue) :
    (state.setTask self task).waking queue := by
  obtain ⟨waker, wakes⟩ := waking
  refine ⟨waker, ?_⟩
  rw [State.setTask_tasks]
  split
  · rename_i same
    exact kept (same ▸ wakes)
  · exact wakes

theorem Task.calm_mono {dev : HelloDev} {waking waking' : WaitQueue → Prop} {id : Nat} {task : Task}
    (grows : ∀ queue, waking queue → waking' queue) (calm : task.Calm dev waking id) :
    task.Calm dev waking' id := by
  unfold Task.Calm at calm ⊢
  split
  · rename_i kind call pc activity
    rw [activity] at calm
    obtain ⟨queued, tested, sleeps⟩ := calm
    exact ⟨queued, tested, fun asleep => ⟨(sleeps asleep).1, (sleeps asleep).2.imp_right (grows _)⟩⟩
  · rename_i other
    split at calm
    · rename_i kind call pc activity
      exact absurd activity (other kind call pc)
    · exact calm

theorem wakeInvariant_setTask {state : State} {self : Nat} {task : Task}
    (invariant : WakeInvariant state) (stream : StreamInvariant (state.setTask self task))
    (kept : ∀ queue, (state.tasks self).wakesAt queue → task.wakesAt queue)
    (calm : ∀ waking, task.Calm state.dev waking self) :
    WakeInvariant (state.setTask self task) := by
  refine ⟨stream, ?_⟩
  intro id
  rw [State.setTask_tasks]
  split
  · rename_i same
    subst id
    exact calm _
  · exact Task.calm_mono (fun queue => waking_setTask (kept queue)) (invariant.calm id)

theorem wakeInvariant_step {state next : State} {action : Action} (invariant : WakeInvariant state)
    (stepped : step state action = some next) : WakeInvariant next := by
  have stream := streamInvariant_step invariant.stream stepped
  have calm := invariant.calm
  obtain ⟨self, operation, -, idle, rfl⟩ | ⟨self, -, rfl⟩ | ⟨self, copied, effect, -, ran, rfl⟩ :=
    step_cases stepped
  · have awake : (state.tasks self).state = .running := by
      simpa [Task.Calm, idle] using calm self
    refine wakeInvariant_setTask invariant stream ?_ ?_
    · rintro queue ⟨kind, call, count, activity, -⟩
      simp [idle] at activity
    · intro waking
      cases operation with
      | read call => exact calm_awake awake (by simp [Pc.queued]) (by simp)
      | write call => exact calm_awake awake (by simp [Pc.queued]) (by simp)
      | ioctl cmd => exact awake
      | poll => exact awake
  · refine wakeInvariant_setTask invariant stream (fun _ wakes => wakes) ?_
    intro waking
    have before := calm self
    unfold Task.Calm at before ⊢
    split
    · rename_i kind call pc activity
      simp only at activity
      rw [activity] at before
      exact ⟨before.1, before.2.1, by simp⟩
    · rfl
  · exact wakeInvariant_run invariant stream ran

theorem wakeInvariant_reachable {actions : List Action} {state : State}
    (reached : run step initial actions = some state) : WakeInvariant state :=
  run_invariant (fun _ _ _ invariant stepped => wakeInvariant_step invariant stepped)
    wakeInvariant_initial reached

theorem not_waking_of_free {state : State} {queue : WaitQueue} (exclusive : Exclusive state)
    (free : state.dev.mutex = none) : ¬state.waking queue := by
  rintro ⟨waker, wakes⟩
  have owner := exclusive waker (Task.wakesAt_critical wakes)
  simp [free] at owner

theorem wakeInvariant_mustWait {state : State} (invariant : WakeInvariant state)
    (free : state.dev.mutex = none) {id : Nat} {kind : Kind} {call : Call} {pc : Pc}
    (activity : (state.tasks id).activity = .transfer kind call pc)
    (sleeping : (state.tasks id).state = .interruptible) :
    kind.ops.mustWait state.dev.currentLen = true := by
  have calm := invariant.calm id
  unfold Task.Calm at calm
  rw [activity] at calm
  rcases (calm.2.2 sleeping).2 with waits | waking
  · exact waits
  · exact absurd waking (not_waking_of_free invariant.stream.exclusive free)

/-- Whenever the mutex is free, an interruptible reader of the wait loop faces an empty device,
an interruptible writer a full one, and a task whose operation could proceed can leave
`schedule()`. -/
theorem helloDev_no_lost_wakeup (actions : List Action) (state : State)
    (reached : run step initial actions = some state) (free : state.dev.mutex = none) :
    (∀ id call pc, (state.tasks id).activity = .transfer .read call pc → pc.inWaitLoop = true →
      (state.tasks id).state = .interruptible → state.dev.currentLen = 0) ∧
    (∀ id call pc, (state.tasks id).activity = .transfer .write call pc → pc.inWaitLoop = true →
      (state.tasks id).state = .interruptible → state.dev.currentLen = hellodevSize) ∧
    ∀ id kind call, (state.tasks id).activity = .transfer kind call .schedule →
      kind.ops.mustWait state.dev.currentLen = false → ∃ next, step state (.run id 0) = some next := by
  have invariant := wakeInvariant_reachable reached
  refine ⟨?_, ?_, ?_⟩
  · intro id call pc activity _ sleeping
    simpa [Kind.ops, helloRead] using wakeInvariant_mustWait invariant free activity sleeping
  · intro id call pc activity _ sleeping
    simpa [Kind.ops, helloWrite] using wakeInvariant_mustWait invariant free activity sleeping
  · intro id kind call activity proceeds
    have awake : (state.tasks id).state ≠ .interruptible := by
      intro sleeping
      have waits := wakeInvariant_mustWait invariant free activity sleeping
      simp [proceeds] at waits
    simp [step, taskStep, activity, transferStep, awake]

theorem helloDev_no_lost_wakeup_sleepyReader :
    ∃ state, run step initial (sleepyReader.take 6) = some state ∧
      (state.tasks 1).state = .interruptible ∧ state.dev.currentLen = 0 :=
  ⟨_, rfl, rfl, (helloDev_no_lost_wakeup (sleepyReader.take 6) _ rfl rfl).1 1 _ _ rfl rfl rfl⟩

end LearnK.GlobalFifo
