import LearnK.GlobalFifo.Beside

/-! A `hello_read` or `hello_write` call that fails leaves the stream as it was: the run with the
call is compared with the run without it, which hides the calling task. -/

namespace LearnK.GlobalFifo

open ByteMemory StepMachine

structure Sound (state : State) : Prop where
  wake : WakeInvariant state
  entries : Entries state
  owned : Owned state

theorem sound_initial : Sound initial :=
  ⟨wakeInvariant_initial, entries_initial, quiet_initial.owned⟩

theorem sound_step {state next : State} {action : Action} (sound : Sound state)
    (stepped : step state action = some next) : Sound next :=
  ⟨wakeInvariant_step sound.wake stepped, entries_step sound.entries stepped,
    owned_step sound.owned stepped⟩

theorem sound_reachable {actions : List Action} {state : State}
    (reached : run step initial actions = some state) : Sound state :=
  run_invariant (fun _ _ _ sound stepped => sound_step sound stepped) sound_initial reached

def FailsSoFar (self : Nat) (state : State) (action : Action) : Prop :=
  ∀ copied, action = .run self copied →
    ∃ kind call pc, (state.tasks self).activity = .transfer kind call pc ∧ pc.succeeds = false

theorem taskStep_unnoticed {state : State} {hidden : Nat → Bool} {other : HelloDev} {self copied : Nat}
    {effect : Effect} (exclusive : Exclusive state) (beside : DevBeside hidden state.dev other)
    (concealed : hidden self = true) (fails : FailsSoFar self state (.run self copied))
    (ran : taskStep self copied state.dev (state.tasks self) = some effect) :
    Unnoticed hidden state.dev other effect := by
  obtain ⟨kind, call, pc, activity, failing⟩ := fails copied rfl
  have held : pc.critical = true → state.dev.mutex = some self := by
    intro critical
    apply exclusive
    rw [Task.critical, activity]
    exact critical
  rw [taskStep, activity] at ran
  exact transferStep_unnoticed beside concealed held failing ran

theorem Beside.stays {hidden : Nat → Bool} {state other next : State} {self : Nat} {action : Action}
    (beside : Beside hidden state other) (exclusive : Exclusive state)
    (concealed : hidden self = true) (mine : action.task = self) (fails : FailsSoFar self state action)
    (stepped : step state action = some next) : Beside hidden next other := by
  subst mine
  obtain ⟨self, operation, rfl, idle, rfl⟩ | ⟨self, rfl, rfl⟩ | ⟨self, copied, effect, rfl, ran, rfl⟩ :=
    step_cases stepped
  · exact beside.ownTask concealed _
  · exact beside.ownTask concealed _
  · exact beside.ownApply concealed (taskStep_unnoticed exclusive beside.dev concealed fails ran)

def Settled (task : Task) : Prop :=
  ∀ kind call pc, task.activity = .transfer kind call pc → pc.succeeds = true

theorem taskStep_settled {self copied : Nat} {dev : HelloDev} {task : Task} {effect : Effect}
    (settled : Settled task) (stepped : taskStep self copied dev task = some effect) :
    Settled effect.task := by
  intro kind call pc there
  unfold taskStep at stepped
  cases activity : task.activity with
  | idle => simp [activity] at stepped
  | transfer kind' call' before =>
      have succeeds := settled kind' call' before activity
      rw [activity] at stepped
      cases before with
      | update | wake =>
          cases stepped
          cases there
          simp [Pc.succeeds]
      | out | out2 =>
          cases stepped
          cases there
          simpa [Pc.succeeds] using succeeds
      | leave =>
          cases stepped
          cases there
      | lock | addWait | test | setState | unlockLoop | schedule | signal | relock | copy =>
          simp [Pc.succeeds] at succeeds
  | ioctl before =>
      rw [activity] at stepped
      cases before with
      | lock =>
          obtain ⟨locked, -, rfl⟩ := Option.map_eq_some_iff.mp stepped
          cases there
      | clear | unlock | leave =>
          cases stepped
          cases there
  | poll before =>
      rw [activity] at stepped
      cases before with
      | lock | relock =>
          obtain ⟨locked, -, rfl⟩ := Option.map_eq_some_iff.mp stepped
          cases there
      | mask | leave =>
          cases stepped
          cases there

def Action.enters (self : Nat) : Action → Prop
  | .enter task _ => task = self
  | _ => False

theorem Settled.congr {task other : Task} (settled : Settled task)
    (same : other.activity = task.activity) : Settled other := by
  intro kind call pc there
  exact settled kind call pc (same.symm.trans there)

theorem step_activity {self : Nat} {state next : State} {action : Action}
    (enters : ¬action.enters self) (stepped : step state action = some next) :
    (next.tasks self).activity = (state.tasks self).activity ∨
      ∃ copied effect, taskStep self copied state.dev (state.tasks self) = some effect ∧
        next.tasks self = effect.task := by
  obtain ⟨task, operation, rfl, -, rfl⟩ | ⟨task, rfl, rfl⟩ | ⟨task, copied, effect, rfl, ran, rfl⟩ :=
    step_cases stepped
  · left
    rw [State.setTask_tasks, if_neg (Ne.symm enters)]
  · left
    rw [State.setTask_tasks]
    split
    · rename_i same
      rw [same]
    · rfl
  · by_cases same : self = task
    · subst same
      exact .inr ⟨copied, effect, ran, State.apply_self state self effect⟩
    · left
      rw [State.apply_other _ _ same, wakeUp_activity]

theorem settled_step {self : Nat} {state next : State} {action : Action}
    (settled : Settled (state.tasks self)) (enters : ¬action.enters self)
    (stepped : step state action = some next) : Settled (next.tasks self) := by
  rcases step_activity enters stepped with same | ⟨copied, effect, ran, moved⟩
  · exact settled.congr same
  · rw [moved]
    exact taskStep_settled settled ran

theorem settled_run {self : Nat} {state stopped : State} {actions : List Action}
    (settled : Settled (state.tasks self)) (enters : ∀ action ∈ actions, ¬action.enters self)
    (ran : run step state actions = some stopped) : Settled (stopped.tasks self) := by
  have kept : ∀ (state : State) action next, ¬action.enters self → Settled (state.tasks self) →
      step state action = some next → Settled (next.tasks self) :=
    fun _ _ _ enters settled stepped => settled_step settled enters stepped
  exact run_invariant_allowed _ kept enters settled ran

theorem failsSoFar_eachStep {self : Nat} {state stopped : State} {actions : List Action}
    (enters : ∀ action ∈ actions, ¬action.enters self) (fails : ¬Settled (stopped.tasks self))
    (ran : run step state actions = some stopped) :
    EachStep step (FailsSoFar self) state actions := by
  induction actions generalizing state with
  | nil => trivial
  | cons action rest ih =>
      obtain ⟨next, stepped, remaining⟩ := run_cons_some ran
      have later : ∀ other ∈ rest, ¬other.enters self := fun other member =>
        enters other (by simp [member])
      intro other stepped'
      obtain rfl := Option.some.inj (stepped.symm.trans stepped')
      refine ⟨fun copied own => ?_, ih later remaining⟩
      -- a call that had succeeded here would still be settled at the end
      by_contra done
      have settled : Settled (state.tasks self) := by
        intro kind call pc activity
        by_contra failing
        exact done ⟨kind, call, pc, activity, by simpa using failing⟩
      exact fails (settled_run settled enters ran)

theorem idle_step {self : Nat} {state next : State} {action : Action}
    (idle : (state.tasks self).activity = .idle) (enters : ¬action.enters self)
    (stepped : step state action = some next) : (next.tasks self).activity = .idle := by
  rcases step_activity enters stepped with same | ⟨copied, effect, ran, -⟩
  · rw [same, idle]
  · simp [taskStep, idle] at ran

theorem idle_eachStep {self : Nat} {state : State} {actions : List Action}
    (idle : (state.tasks self).activity = .idle) (enters : ∀ action ∈ actions, ¬action.enters self) :
    EachStep step (FailsSoFar self) state actions := by
  induction actions generalizing state with
  | nil => trivial
  | cons action rest ih =>
      intro next stepped
      refine ⟨fun copied own => ?_, ih (idle_step idle (enters action (by simp)) stepped)
        fun other member => enters other (by simp [member])⟩
      subst own
      simp [step, taskStep, idle] at stepped

/-- From a point where the task is between two calls, one call of it up to its `return`.  A signal
that reaches the task in between is handled when this call returns. -/
structure CallReturns (caller : Nat) (start : State) (during : List Action) (stopped : State)
    (ret : Int) : Prop where
  idle : (start.tasks caller).activity = .idle
  quiet : (start.tasks caller).sigPending = false
  once : ∃ first operation second, during = first ++ .enter caller operation :: second ∧
    ∀ action ∈ first ++ second, ¬action.enters caller
  ran : run step start during = some stopped
  returns : ∃ kind call, (stopped.tasks caller).activity = .transfer kind call (.leave ret)

theorem CallReturns.fails_eachStep {self : Nat} {start stopped : State} {during : List Action}
    {ret : Int} (call : CallReturns self start during stopped ret) (negative : ret < 0) :
    EachStep step (FailsSoFar self) start during := by
  obtain ⟨first, operation, second, rfl, once⟩ := call.once
  obtain ⟨kind, arguments, returns⟩ := call.returns
  have unsettled : ¬Settled (stopped.tasks self) := by
    intro settled
    have succeeds := settled kind arguments _ returns
    simp only [Pc.succeeds, decide_eq_true_eq] at succeeds
    omega
  -- before it enters, the task has no statement to run
  refine eachStep_append (idle_eachStep call.idle fun action member =>
    once action (List.mem_append_left _ member)) fun middle early => ?_
  have late := call.ran
  rw [run_append, early] at late
  obtain ⟨entered, stepped, remaining⟩ := run_cons_some late
  intro next stepped'
  obtain rfl := Option.some.inj (stepped.symm.trans stepped')
  refine ⟨fun copied own => by simp at own, ?_⟩
  exact failsSoFar_eachStep (fun action member => once action (List.mem_append_right _ member))
    unsettled remaining

def OwnKeeps (self : Nat) (state : State) (action : Action) : Prop :=
  action.task = self → ∀ next, step state action = some next →
    next.dev.currentLen = state.dev.currentLen ∧ next.dev.contents = state.dev.contents

theorem ownKeeps_of_fails {self : Nat} {state : State} {action : Action}
    (exclusive : Exclusive state) (fails : FailsSoFar self state action) :
    OwnKeeps self state action := by
  intro mine next stepped
  subst mine
  obtain ⟨self, operation, rfl, idle, rfl⟩ | ⟨self, rfl, rfl⟩ | ⟨self, copied, effect, rfl, ran, rfl⟩ :=
    step_cases stepped
  · exact ⟨rfl, rfl⟩
  · exact ⟨rfl, rfl⟩
  · -- any state beside this one will do: what is asked is about this one only
    let hidden := fun id => id == self
    let other : HelloDev :=
      { state.dev with
        mutex := state.dev.mutex.filter fun id => !hidden id
        rWait := state.dev.rWait.filter fun id => !hidden id
        wWait := state.dev.wWait.filter fun id => !hidden id }
    have beside : DevBeside hidden state.dev other := ⟨rfl, rfl, rfl, rfl, rfl⟩
    have unnoticed := taskStep_unnoticed exclusive beside (beq_self_eq_true self) fails ran
    exact ⟨unnoticed.length, unnoticed.bytes⟩

theorem Sound.fresh {state : State} {self : Nat} (sound : Sound state)
    (idle : (state.tasks self).activity = .idle) (quiet : (state.tasks self).sigPending = false) :
    state.tasks self = Task.fresh := by
  have running : (state.tasks self).state = .running := by
    have calm := sound.wake.calm self
    rw [Task.Calm, idle] at calm
    exact calm
  rw [Task.fresh, ← idle, ← running, ← quiet]

theorem Sound.idle_hidden {state : State} {self : Nat} (sound : Sound state)
    (idle : (state.tasks self).activity = .idle) :
    DevBeside (fun id => id == self) state.dev state.dev := by
  have absent (queue : WaitQueue) : self ∉ state.dev.queue queue := by
    rw [(sound.entries.queued self).member, Task.entry, idle]
    simp
  have kept (queue : List Nat) (absent : self ∉ queue) :
      queue = queue.filter fun id => !(id == self) := by
    refine (List.filter_eq_self.mpr fun id member => ?_).symm
    have different : id ≠ self := by
      rintro rfl
      exact absent member
    simp [different]
  refine ⟨rfl, rfl, ?_, kept _ (absent .rWait), kept _ (absent .wWait)⟩
  cases holder : state.dev.mutex with
  | none => rfl
  | some id =>
      have different : id ≠ self := by
        rintro rfl
        have critical := (sound.owned.holder id).mp holder
        rw [Task.critical, idle] at critical
        simp [Activity.critical] at critical
      exact (Option.filter_some_pos (by simp [different])).symm

theorem DevBeside.idle {dev other : HelloDev} {self : Nat}
    (beside : DevBeside (fun id => id == self) dev other)
    (hides : DevBeside (fun id => id == self) dev dev) : DevBeside (fun _ => false) dev other := by
  refine ⟨beside.length, beside.bytes, ?_, ?_, ?_⟩
  · rw [beside.mutex, ← hides.mutex]
    cases dev.mutex <;> rfl
  · rw [beside.readers, ← hides.readers]
    simp
  · rw [beside.writers, ← hides.writers]
    simp

theorem Beside.idle {state other : State} {self : Nat}
    (beside : Beside (fun id => id == self) state other) (sound : Sound state)
    (fresh : state.tasks self = Task.fresh) : Beside (fun _ => false) state other where
  dev := beside.dev.idle (sound.idle_hidden (by rw [fresh]; rfl))
  shown id _ := by
    by_cases same : id = self
    · subst same
      rw [fresh, beside.still id (beq_self_eq_true id)]
    · exact beside.shown id (by simpa using same)
  still id concealed := by simp at concealed
  deliveries := beside.deliveries

theorem DevBeside.symm {dev other : HelloDev} (beside : DevBeside (fun _ => false) dev other) :
    DevBeside (fun _ => false) other dev := by
  refine ⟨beside.length.symm, beside.bytes.symm, ?_, ?_, ?_⟩
  · rw [beside.mutex]
    cases dev.mutex <;> rfl
  · simp [beside.readers]
  · simp [beside.writers]

theorem Beside.symm {state other : State} (beside : Beside (fun _ => false) state other) :
    Beside (fun _ => false) other state where
  dev := beside.dev.symm
  shown id visible := (beside.shown id visible).symm
  still id concealed := by simp at concealed
  deliveries := beside.deliveries.symm

structure SoundBeside (hidden : Nat → Bool) (state other : State) : Prop where
  sound : Sound state
  sound' : Sound other
  beside : Beside hidden state other

theorem SoundBeside.follows {hidden : Nat → Bool} {state other next : State} {action : Action}
    (related : SoundBeside hidden state other) (shown : hidden action.task = false)
    (stepped : step state action = some next) :
    ∃ next', step other action = some next' ∧ SoundBeside hidden next next' := by
  obtain ⟨next', stepped', beside⟩ := related.beside.follows related.sound.wake.stream
    related.sound'.wake.stream shown stepped
  exact ⟨next', stepped', sound_step related.sound stepped, sound_step related.sound' stepped', beside⟩

theorem SoundBeside.lockstep {state other : State} (related : SoundBeside (fun _ => false) state other)
    (action : Action) :
    Option.Rel (SoundBeside fun _ => false) (step state action) (step other action) := by
  cases stepped : step state action with
  | some next =>
      obtain ⟨next', stepped', after⟩ := related.follows rfl stepped
      rw [stepped']
      exact .some after
  | none =>
      cases stepped' : step other action with
      | none => exact .none
      | some next' =>
          have swapped : SoundBeside (fun _ => false) other state :=
            ⟨related.sound', related.sound, related.beside.symm⟩
          obtain ⟨next, taken, -⟩ := swapped.follows rfl stepped'
          simp [stepped] at taken

/-- The two runs have delivered the same bytes, read by read, and store the same bytes. -/
def SameStream (state other : State) : Prop :=
  other.deliveries = state.deliveries ∧ other.dev.currentLen = state.dev.currentLen ∧
    other.dev.contents = state.dev.contents

theorem CallReturns.hidden {self : Nat} {start stopped : State} {during : List Action}
    {ret : Int} (call : CallReturns self start during stopped ret) (negative : ret < 0)
    (sound : Sound start) :
    ∃ other, run step start (during.filter fun action => !(action.task == self)) = some other ∧
      SoundBeside (fun id => id == self) stopped other := by
  have fresh := sound.fresh call.idle call.quiet
  have beside : Beside (fun id => id == self) start start :=
    ⟨sound.idle_hidden call.idle, fun _ _ => rfl, fun id same => by rw [eq_of_beq same, fresh], rfl⟩
  refine run_stutters ?_ ?_ ⟨sound, sound, beside⟩ (call.fails_eachStep negative) call.ran
  · intro state other action next related fails mine stepped
    exact ⟨sound_step related.sound stepped, related.sound',
      related.beside.stays related.sound.wake.stream.exclusive (beq_self_eq_true self)
        (eq_of_beq mine) fails stepped⟩
  · intro state other action next related shown stepped
    exact related.follows shown stepped

theorem leave_step {state : State} {self copied : Nat} {kind : Kind} {call : Call} {ret : Int}
    (returns : (state.tasks self).activity = .transfer kind call (.leave ret)) :
    ∃ next, step state (.run self copied) = some next ∧
      (next.tasks self) = ⟨.idle, .running, false⟩ := by
  refine ⟨_, ?_, State.apply_self state self
    ⟨state.dev, { state.tasks self with state := .running }.finish, [.returned self ret], none⟩⟩
  simp only [step, taskStep, returns, transferStep, Option.map_some]

/-- The call's own steps keep the stored bytes, and the run without the call goes on like the one
with it, whatever follows. -/
theorem helloDev_failure_unnoticed {before during : List Action} {start stopped : State} {self : Nat}
    {ret : Int} (reached : run step initial before = some start)
    (call : CallReturns self start during stopped ret)
    (fails : ret ∈ [-eagain, -erestartsys, -efault]) (copied : Nat) :
    EachStep step (OwnKeeps self) start (during ++ [.run self copied]) ∧
      ∀ after, Option.Rel SameStream (run step stopped (.run self copied :: after))
        (run step initial (before ++ during.filter (fun action => !(action.task == self)) ++ after)) := by
  have sound : Sound start := sound_reachable reached
  have negative : ret < 0 := by
    simp only [eagain, erestartsys, efault, List.mem_cons, List.not_mem_nil, or_false] at fails
    omega
  obtain ⟨other, ran, related⟩ := call.hidden negative sound
  obtain ⟨kind, arguments, returns⟩ := call.returns
  have failing : FailsSoFar self stopped (.run self copied) :=
    fun _ _ => ⟨kind, arguments, _, returns, by simpa [Pc.succeeds] using negative⟩
  constructor
  · refine eachStep_append (EachStep.imp (fun _ _ _ => sound_step) (fun state action next sound _ =>
      ownKeeps_of_fails sound.wake.stream.exclusive) sound (call.fails_eachStep negative)) ?_
    intro stopped' ran next stepped
    obtain rfl := Option.some.inj (call.ran.symm.trans ran)
    exact ⟨ownKeeps_of_fails related.sound.wake.stream.exclusive failing, trivial⟩
  · intro after
    obtain ⟨next, stepped, fresh⟩ := leave_step returns
    have still := related.beside.stays related.sound.wake.stream.exclusive (beq_self_eq_true self) rfl
      failing stepped
    have sound' := sound_step related.sound stepped
    -- back from its call the task is as fresh as the run without the call has kept it
    have together : SoundBeside (fun _ => false) next other :=
      ⟨sound', related.sound', still.idle sound' fresh⟩
    rw [run_cons, stepped, List.append_assoc, run_append, reached]
    simp only [Option.bind_some, run_append, ran]
    refine rel_imp ?_ (run_lockstep (fun _ _ action related _ => related.lockstep action) together
      (eachStep_true next after))
    intro final other both
    exact ⟨both.beside.deliveries, both.beside.dev.length, both.beside.dev.bytes⟩

def filled : List Action :=
  [.enter 0 (.write ⟨false, fun index => UInt8.ofNat (index + 7), 3⟩)] ++ List.replicate 9 (.run 0 3)

def filledState : State := (run step initial filled).getD initial

def brokenWrite : List Action :=
  [.enter 1 (.write ⟨false, fun _ => 5, 2⟩)] ++ List.replicate 6 (.run 1 1)

def brokenState : State := (run step filledState brokenWrite).getD initial

def readBack : List Action :=
  [.enter 2 (.read ⟨false, fun _ => 0, 3⟩)] ++ List.replicate 9 (.run 2 3)

theorem brokenWrite_returns : CallReturns 1 filledState brokenWrite brokenState (-efault) := by
  refine ⟨rfl, rfl, ⟨[], _, _, rfl, fun action member => ?_⟩, rfl, _, _, rfl⟩
  rw [List.eq_of_mem_replicate member]
  exact not_false

theorem helloDev_failure_unnoticed_brokenWrite :
    CallReturns 1 filledState brokenWrite brokenState (-efault) ∧
    Option.map State.deliveries (run step brokenState (.run 1 0 :: readBack)) = some [[7, 8, 9]] ∧
    Option.Rel SameStream (run step brokenState (.run 1 0 :: readBack))
      (run step initial (filled ++ brokenWrite.filter (fun action => !(action.task == 1)) ++ readBack)) :=
  ⟨brokenWrite_returns, by decide,
    (helloDev_failure_unnoticed rfl brokenWrite_returns (by decide) 0).2 readBack⟩

end LearnK.GlobalFifo
