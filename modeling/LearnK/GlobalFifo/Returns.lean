import LearnK.GlobalFifo.Wakeup

/-! What `hello_read` and `hello_write` may return.  Nobody sees a zero for a request of at least
one byte, `-EAGAIN` goes to `O_NONBLOCK` calls only, `-ERESTARTSYS` to the others only and after a
signal, and a non-blocking call never sleeps. -/

namespace LearnK.GlobalFifo

open StepMachine

def Call.Returns (call : Call) (sigPending : Bool) (ret : Int) : Prop :=
  ret = -eagain ∧ call.nonblock = true ∨
    ret = -erestartsys ∧ call.nonblock = false ∧ sigPending = true ∨
    ret = -efault ∧ 0 < call.count ∨
    0 ≤ ret ∧ ret ≤ call.count ∧ ret ≤ hellodevSize ∧ (0 < call.count → 0 < ret)

/-- What is known at a statement: the wait loop is entered by blocking calls only, the copy is
reached where there is something to do, and the return value is settled after it. -/
def Pc.Settles (kind : Kind) (dev : HelloDev) (call : Call) (sigPending : Bool) : Pc → Prop
  | .lock | .addWait | .test => True
  | .setState | .unlockLoop | .schedule | .signal | .relock => call.nonblock = false
  | .copy => kind.ops.mustWait dev.currentLen = false
  | .update count _ | .wake count => call.Returns sigPending count
  | .out ret | .out2 ret | .leave ret => call.Returns sigPending ret

def Task.Settles (dev : HelloDev) (task : Task) : Prop :=
  match task.activity with
  | .transfer kind call pc => pc.Settles kind dev call task.sigPending
  | _ => True

theorem Kind.clamp_le_count (kind : Kind) (count currentLen : Nat) :
    kind.ops.clamp count currentLen ≤ count := by
  cases kind with
  | read =>
      simp only [Kind.ops, helloRead]
      split <;> omega
  | write =>
      simp only [Kind.ops, helloWrite]
      split <;> omega

theorem Kind.clamp_returns (kind : Kind) {call : Call} {currentLen : Nat} (sigPending : Bool)
    (bounded : currentLen ≤ hellodevSize) (proceeds : kind.ops.mustWait currentLen = false) :
    call.Returns sigPending (kind.ops.clamp call.count currentLen) := by
  refine .inr (.inr (.inr ⟨Int.natCast_nonneg _, ?_⟩))
  cases kind with
  | read =>
      simp only [Kind.ops, helloRead, beq_eq_false_iff_ne] at proceeds ⊢
      split <;> omega
  | write =>
      simp only [Kind.ops, helloWrite, beq_eq_false_iff_ne] at proceeds ⊢
      split <;> omega

theorem transferStep_settles {kind : Kind} {call : Call} {self copied : Nat} {dev : HelloDev}
    {task : Task} {pc : Pc} {effect : Effect} (bounded : dev.currentLen ≤ hellodevSize)
    (settles : pc.Settles kind dev call task.sigPending)
    (stepped : transferStep kind call self copied dev task pc = some effect) :
    effect.task.Settles effect.dev := by
  cases pc with
  | lock | relock =>
      obtain ⟨locked, -, rfl⟩ := Option.map_eq_some_iff.mp stepped
      trivial
  | addWait | leave =>
      cases stepped
      trivial
  | test =>
      simp only [transferStep] at stepped
      split_ifs at stepped with waits nonblock
      · cases stepped
        exact .inl ⟨rfl, nonblock⟩
      · cases stepped
        exact (Bool.not_eq_true _).mp nonblock
      · cases stepped
        exact (Bool.not_eq_true _).mp waits
  | setState | unlockLoop | update | wake | out | out2 =>
      cases stepped
      exact settles
  | schedule =>
      simp only [transferStep] at stepped
      split_ifs at stepped
      cases stepped
      exact settles
  | signal =>
      simp only [transferStep] at stepped
      split_ifs at stepped with pending
      · cases stepped
        exact .inr (.inl ⟨rfl, settles, pending⟩)
      · cases stepped
        exact settles
  | copy =>
      simp only [transferStep] at stepped
      split_ifs at stepped with incomplete
      · cases stepped
        have within := kind.clamp_le_count call.count dev.currentLen
        have asked : 0 < call.count := by omega
        exact .inr (.inr (.inl ⟨rfl, asked⟩))
      · cases stepped
        exact kind.clamp_returns task.sigPending bounded settles

theorem taskStep_settles {self copied : Nat} {dev : HelloDev} {task : Task} {effect : Effect}
    (bounded : dev.currentLen ≤ hellodevSize) (settles : task.Settles dev)
    (stepped : taskStep self copied dev task = some effect) : effect.task.Settles effect.dev := by
  unfold taskStep at stepped
  unfold Task.Settles at settles
  cases activity : task.activity with
  | idle => simp [activity] at stepped
  | transfer kind call pc =>
      rw [activity] at stepped settles
      exact transferStep_settles bounded settles stepped
  | ioctl pc =>
      rw [activity] at stepped
      cases pc with
      | lock =>
          obtain ⟨locked, -, rfl⟩ := Option.map_eq_some_iff.mp stepped
          trivial
      | clear | unlock | leave =>
          cases stepped
          trivial
  | poll pc =>
      rw [activity] at stepped
      cases pc with
      | lock | relock =>
          obtain ⟨locked, -, rfl⟩ := Option.map_eq_some_iff.mp stepped
          trivial
      | mask | leave =>
          cases stepped
          trivial

theorem Call.Returns.signalled {call : Call} {sigPending later : Bool} {ret : Int}
    (returns : call.Returns sigPending ret) (kept : sigPending = true → later = true) :
    call.Returns later ret :=
  returns.imp_right fun other => other.imp_left fun ⟨same, blocks, pending⟩ =>
    ⟨same, blocks, kept pending⟩

theorem Task.settles_of_activity {dev other : HelloDev} {task task' : Task} (settles : task.Settles dev)
    (same : task'.activity = task.activity) (kept : task.sigPending = true → task'.sigPending = true)
    (steady : task.critical = true → other.currentLen = dev.currentLen) : task'.Settles other := by
  unfold Task.Settles at settles ⊢
  unfold Task.critical at steady
  rw [same]
  cases activity : task.activity with
  | transfer kind call pc =>
      rw [activity] at settles steady
      cases pc with
      | copy =>
          have still : other.currentLen = dev.currentLen := steady rfl
          simpa only [Pc.Settles, still] using settles
      | update | wake | out | out2 | leave => exact settles.signalled kept
      | _ => exact settles
  | _ => trivial

theorem wakeUp_sigPending (dev : HelloDev) (wakes : Option WaitQueue) (id : Nat) (task : Task) :
    (wakeUp dev wakes id task).sigPending = task.sigPending := by
  unfold wakeUp
  split
  · rfl
  · split <;> rfl

structure SettledInvariant (state : State) : Prop where
  stream : StreamInvariant state
  settles : ∀ id, (state.tasks id).Settles state.dev

theorem settledInvariant_initial : SettledInvariant initial := ⟨streamInvariant_initial, fun _ => trivial⟩

theorem settledInvariant_step {state next : State} {action : Action}
    (invariant : SettledInvariant state) (stepped : step state action = some next) :
    SettledInvariant next := by
  refine ⟨streamInvariant_step invariant.stream stepped, fun id => ?_⟩
  have settles := invariant.settles id
  obtain ⟨self, operation, -, -, rfl⟩ | ⟨self, -, rfl⟩ | ⟨self, copied, effect, -, ran, rfl⟩ :=
    step_cases stepped
  · rw [State.setTask_tasks]
    split
    · cases operation <;> trivial
    · exact settles
  · rw [State.setTask_tasks]
    split
    · rename_i same
      subst id
      exact Task.settles_of_activity settles rfl (fun _ => rfl) fun _ => rfl
    · exact settles
  · by_cases same : id = self
    · subst id
      rw [State.apply_self]
      exact taskStep_settles invariant.stream.bounded settles ran
    · rw [State.apply_other state effect same]
      refine Task.settles_of_activity settles (wakeUp_activity ..) (fun pending => ?_) fun critical => ?_
      · rwa [wakeUp_sigPending]
      have outside : (state.tasks self).critical = false := by
        by_contra inside
        exact same (exclusive_unique invariant.stream.exclusive critical (by simpa using inside))
      exact (taskStep_outside outside ran).1

theorem settledInvariant_reachable {actions : List Action} {state : State}
    (reached : run step initial actions = some state) : SettledInvariant state :=
  run_invariant (fun _ _ _ invariant stepped => settledInvariant_step invariant stepped)
    settledInvariant_initial reached

/-- Whatever else runs, a read or write of `count` bytes returns between one and `count` bytes, at
most the size of the device, or one of the three errors for its own reason; and one that asked not
to block is never put to sleep. -/
theorem helloDev_returns_valid (actions : List Action) (state : State)
    (reached : run step initial actions = some state) (id : Nat) (kind : Kind) (call : Call) (pc : Pc)
    (activity : (state.tasks id).activity = .transfer kind call pc) :
    (∀ ret, pc = .leave ret → call.Returns (state.tasks id).sigPending ret) ∧
      (call.nonblock = true → (state.tasks id).state = .running) := by
  have settles := (settledInvariant_reachable reached).settles id
  have calm := (wakeInvariant_reachable reached).calm id
  simp only [Task.Settles, activity] at settles
  simp only [Task.Calm, activity] at calm
  refine ⟨fun ret leaving => ?_, fun nonblock => ?_⟩
  · subst leaving
    exact settles
  · cases state : (state.tasks id).state with
    | running => rfl
    | interruptible =>
        have sleeping := (calm.2.2 state).1
        have blocking : call.nonblock = false := by
          cases pc with
          | unlockLoop | schedule => exact settles
          | _ => simp [Pc.maySleep] at sleeping
        simp [nonblock] at blocking

theorem helloDev_returns_valid_sleepyReader : ∃ state,
    run step initial (sleepyReader.take 25) = some state ∧
      (state.tasks 1).activity = .transfer .read ⟨false, fun _ => 0, 2⟩ (.leave 2) ∧
      Call.Returns ⟨false, fun _ => 0, 2⟩ (state.tasks 1).sigPending 2 :=
  ⟨_, rfl, rfl, (helloDev_returns_valid (sleepyReader.take 25) _ rfl 1 _ _ _ rfl).1 2 rfl⟩

end LearnK.GlobalFifo
