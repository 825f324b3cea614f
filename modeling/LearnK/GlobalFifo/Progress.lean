import LearnK.GlobalFifo.Queue
import LearnK.GlobalFifo.Wakeup

/-! Who can go on.  Without polls some call can always take its next statement, unless all calls in
progress sleep for one and the same reason.  A poll that took the mutex never gives it back, and
from then on nothing reaches the stored bytes. -/

namespace LearnK.GlobalFifo

open StepMachine

def Activity.stuckPolling : Activity → Bool
  | .poll .mask | .poll (.relock _) => true
  | _ => false

theorem Activity.stuckPolling_critical {activity : Activity} (stuck : activity.stuckPolling = true) :
    activity.critical = true := by
  match activity, stuck with
  | .poll .mask, _ | .poll (.relock _), _ => rfl

theorem transferStep_outside_silent {kind : Kind} {call : Call} {self copied : Nat} {dev : HelloDev}
    {task : Task} {pc : Pc} {effect : Effect} (outside : pc.critical = false)
    (stepped : transferStep kind call self copied dev task pc = some effect) :
    queueOps effect.events = [] := by
  cases pc with
  | lock | relock =>
      obtain ⟨locked, -, rfl⟩ := Option.map_eq_some_iff.mp stepped
      rfl
  | schedule | signal =>
      simp only [transferStep] at stepped
      split_ifs at stepped <;> cases stepped <;> rfl
  | out2 | leave =>
      cases stepped
      rfl
  | _ => simp [Pc.critical] at outside

theorem taskStep_outside_silent {self copied : Nat} {dev : HelloDev} {task : Task} {effect : Effect}
    (outside : task.critical = false) (stepped : taskStep self copied dev task = some effect) :
    queueOps effect.events = [] := by
  unfold taskStep at stepped
  unfold Task.critical at outside
  cases activity : task.activity with
  | idle => simp [activity] at stepped
  | transfer kind call pc =>
      rw [activity] at stepped outside
      exact transferStep_outside_silent outside stepped
  | ioctl pc =>
      rw [activity] at stepped outside
      cases pc with
      | lock =>
          obtain ⟨locked, -, rfl⟩ := Option.map_eq_some_iff.mp stepped
          rfl
      | leave =>
          cases stepped
          rfl
      | clear | unlock => simp [Activity.critical] at outside
  | poll pc =>
      rw [activity] at stepped outside
      cases pc with
      | lock =>
          obtain ⟨locked, -, rfl⟩ := Option.map_eq_some_iff.mp stepped
          rfl
      | mask | relock | leave => simp [Activity.critical] at outside

structure Stalled (poller : Nat) (before state : State) : Prop where
  owned : Owned state
  polling : (state.tasks poller).activity.stuckPolling = true
  length : state.dev.currentLen = before.dev.currentLen
  mem : state.dev.mem = before.dev.mem
  silent : state.queueOps = before.queueOps

theorem Stalled.mutex {poller : Nat} {before state : State} (stalled : Stalled poller before state) :
    state.dev.mutex = some poller :=
  (stalled.owned.holder poller).mpr (Activity.stuckPolling_critical stalled.polling)

theorem Stalled.outside {poller other : Nat} {before state : State}
    (stalled : Stalled poller before state) (different : other ≠ poller) :
    (state.tasks other).critical = false := by
  by_contra inside
  have owner := (stalled.owned.holder other).mpr (by simpa using inside)
  rw [stalled.mutex, Option.some.injEq] at owner
  exact different owner.symm

theorem stuckPolling_step {self copied : Nat} {dev : HelloDev} {task : Task} {effect : Effect}
    (held : dev.mutex = some self) (stuck : task.activity.stuckPolling = true)
    (stepped : taskStep self copied dev task = some effect) :
    effect.dev = dev ∧ effect.events = [] ∧ effect.task.activity.stuckPolling = true := by
  unfold taskStep at stepped
  match activity : task.activity, stuck with
  | .poll .mask, _ =>
      rw [activity] at stepped
      cases stepped
      exact ⟨rfl, rfl, rfl⟩
  | .poll (.relock mask), _ =>
      rw [activity] at stepped
      obtain ⟨locked, taken, -⟩ := Option.map_eq_some_iff.mp stepped
      have free := (mutexLock_some taken).1
      simp [held] at free

theorem stalled_step {poller : Nat} {before state next : State} {action : Action}
    (stalled : Stalled poller before state) (stepped : step state action = some next) :
    Stalled poller before next := by
  have owned := owned_step stalled.owned stepped
  have polling := stalled.polling
  obtain ⟨self, operation, -, idle, rfl⟩ | ⟨self, -, rfl⟩ | ⟨self, copied, effect, -, ran, rfl⟩ :=
    step_cases stepped
  · refine ⟨owned, ?_, stalled.length, stalled.mem, stalled.silent⟩
    rw [State.setTask_tasks]
    split
    · rename_i same
      rw [same, idle] at polling
      simp [Activity.stuckPolling] at polling
    · exact polling
  · refine ⟨owned, ?_, stalled.length, stalled.mem, stalled.silent⟩
    rw [State.setTask_tasks]
    split
    · rename_i same
      exact same ▸ polling
    · exact polling
  · have told : (state.apply self effect).queueOps = state.queueOps ++ queueOps effect.events := by
      simp only [State.queueOps, queueOps, State.apply, List.filterMap_append]
    by_cases same : self = poller
    · subst same
      obtain ⟨sameDev, nothing, still⟩ := stuckPolling_step stalled.mutex polling ran
      refine ⟨owned, ?_, ?_, ?_, ?_⟩
      · rwa [State.apply_self]
      · simp only [State.apply, sameDev, stalled.length]
      · simp only [State.apply, sameDev, stalled.mem]
      · rw [told, nothing, stalled.silent]
        exact List.append_nil _
    · have outside := stalled.outside same
      obtain ⟨sameLen, sameMem⟩ := taskStep_outside outside ran
      refine ⟨owned, ?_, sameLen.trans stalled.length, sameMem.trans stalled.mem, ?_⟩
      · rwa [State.apply_other state effect (Ne.symm same), wakeUp_activity]
      · rw [told, taskStep_outside_silent outside ran, List.append_nil, stalled.silent]

theorem owned_reachable {actions : List Action} {state : State}
    (reached : run step initial actions = some state) : Owned state :=
  run_invariant (fun _ _ _ owned stepped => owned_step owned stepped) quiet_initial.owned reached

/-- Once one poll has taken the mutex the device stands still: however the run goes on, the poll
does not return, nobody else enters a critical section, and no byte is accepted, delivered or
cleared any more. -/
theorem helloPoll_stalls_device (actions later : List Action) (state final : State) (poller : Nat)
    (reached : run step initial actions = some state)
    (polling : (state.tasks poller).activity.stuckPolling = true)
    (continued : run step state later = some final) :
    (final.tasks poller).activity.stuckPolling = true ∧ final.dev.mutex = some poller ∧
      (∀ other, other ≠ poller → (final.tasks other).critical = false) ∧
      final.dev.contents = state.dev.contents ∧ final.queueOps = state.queueOps := by
  have stalled : Stalled poller state final :=
    run_invariant (fun _ _ _ stalled stepped => stalled_step stalled stepped)
      ⟨owned_reachable reached, polling, rfl, rfl, rfl⟩ continued
  refine ⟨stalled.polling, stalled.mutex, fun other => stalled.outside, ?_, stalled.silent⟩
  rw [HelloDev.contents, HelloDev.contents, stalled.length, stalled.mem]

theorem helloPoll_stalls_device_writer : ∃ state final,
    run step initial [.enter 0 .poll, .run 0 0] = some state ∧
      run step state [.run 0 0, .enter 1 (.write ⟨true, fun _ => 7, 3⟩)] = some final ∧
      final.dev.contents = [] ∧ final.dev.mutex = some 0 :=
  ⟨_, _, rfl, rfl, rfl, (helloPoll_stalls_device [.enter 0 .poll, .run 0 0]
    [.run 0 0, .enter 1 (.write ⟨true, fun _ => 7, 3⟩)] _ _ 0 rfl rfl rfl).2.1⟩

/-- The call sleeps in `schedule()`, and neither a wake-up nor a signal has reached it. -/
def Task.Asleep (kind : Kind) (task : Task) : Prop :=
  (∃ call, task.activity = .transfer kind call .schedule) ∧ task.state = .interruptible ∧
    task.sigPending = false

theorem critical_steps (self : Nat) (dev : HelloDev) {task : Task} (inside : task.critical = true)
    (noPoll : ∀ pc, task.activity ≠ .poll pc) : ∃ effect, taskStep self 0 dev task = some effect := by
  unfold Task.critical at inside
  unfold taskStep
  cases activity : task.activity with
  | idle => simp [activity, Activity.critical] at inside
  | transfer kind call pc =>
      rw [activity] at inside
      cases pc with
      | addWait | setState | unlockLoop | update | wake | out => exact ⟨_, rfl⟩
      | test | copy =>
          simp only [transferStep]
          split_ifs <;> exact ⟨_, rfl⟩
      | _ => simp [Activity.critical, Pc.critical] at inside
  | ioctl pc =>
      rw [activity] at inside
      cases pc with
      | clear | unlock => exact ⟨_, rfl⟩
      | _ => simp [Activity.critical] at inside
  | poll pc => exact absurd activity (noPoll pc)

theorem free_steps (self : Nat) {dev : HelloDev} {task : Task} (free : dev.mutex = none)
    (outside : task.critical = false) (busy : task.activity ≠ .idle) :
    (∃ effect, taskStep self 0 dev task = some effect) ∨ ∃ kind, task.Asleep kind := by
  have locks : mutexLock dev self = some { dev with mutex := some self } := by
    unfold mutexLock
    rw [free]
  unfold Task.critical at outside
  unfold taskStep
  cases activity : task.activity with
  | idle => exact absurd activity busy
  | transfer kind call pc =>
      rw [activity] at outside
      cases pc with
      | lock | relock => exact .inl ⟨_, by simp only [transferStep, locks, Option.map_some]; rfl⟩
      | schedule =>
          by_cases asleep : task.state = .interruptible ∧ task.sigPending = false
          · exact .inr ⟨kind, ⟨call, activity⟩, asleep⟩
          · exact .inl ⟨_, by simp only [transferStep, if_neg asleep]; rfl⟩
      | signal =>
          refine .inl ?_
          simp only [transferStep]
          split_ifs <;> exact ⟨_, rfl⟩
      | out2 | leave => exact .inl ⟨_, rfl⟩
      | _ => simp [Activity.critical, Pc.critical] at outside
  | ioctl pc =>
      rw [activity] at outside
      cases pc with
      | lock => exact .inl ⟨_, by simp only [helloIoctlStep, locks, Option.map_some]; rfl⟩
      | leave => exact .inl ⟨_, rfl⟩
      | clear | unlock => simp [Activity.critical] at outside
  | poll pc =>
      rw [activity] at outside
      cases pc with
      | lock => exact .inl ⟨_, by simp only [helloPollStep, locks, Option.map_some]; rfl⟩
      | mask | relock | leave => simp [Activity.critical] at outside

theorem Kind.mustWait_unique {first second : Kind} {currentLen : Nat}
    (one : first.ops.mustWait currentLen = true) (other : second.ops.mustWait currentLen = true) :
    first = second := by
  have apart : ¬(helloRead.mustWait currentLen = true ∧ helloWrite.mustWait currentLen = true) := by
    simp [helloRead, helloWrite, hellodevSize]
    omega
  cases first with
  | read =>
      cases second with
      | read => rfl
      | write => exact absurd ⟨one, other⟩ apart
  | write =>
      cases second with
      | read => exact absurd ⟨other, one⟩ apart
      | write => rfl

theorem run_enabled {state : State} {self : Nat} {effect : Effect}
    (ran : taskStep self 0 state.dev (state.tasks self) = some effect) :
    ∃ id next, step state (.run id 0) = some next :=
  ⟨self, state.apply self effect, Option.map_eq_some_iff.mpr ⟨effect, ran, rfl⟩⟩

/-- While no poll is in progress, readers and writers never block each other: some call can take
its next statement, or the mutex is free and all calls sleep, every one of them a read of the empty
device or every one of them a write to the full one. -/
theorem helloDev_never_deadlocks (actions : List Action) (state : State)
    (reached : run step initial actions = some state)
    (noPoll : ∀ id pc, (state.tasks id).activity ≠ .poll pc)
    (busy : ∃ id, (state.tasks id).activity ≠ .idle) :
    (∃ id next, step state (.run id 0) = some next) ∨
      state.dev.mutex = none ∧ ∃ kind : Kind, kind.ops.mustWait state.dev.currentLen = true ∧
        ∀ id, (state.tasks id).activity ≠ .idle → (state.tasks id).Asleep kind := by
  have owned := owned_reachable reached
  have wake := wakeInvariant_reachable reached
  by_cases enabled : ∃ id next, step state (.run id 0) = some next
  · exact .inl enabled
  refine .inr ?_
  have free : state.dev.mutex = none := by
    cases held : state.dev.mutex with
    | none => rfl
    | some owner =>
        obtain ⟨effect, ran⟩ := critical_steps owner state.dev
          ((owned.holder owner).mp held) (noPoll owner)
        exact absurd (run_enabled ran) enabled
  have sleeps (id : Nat) (inProgress : (state.tasks id).activity ≠ .idle) : ∃ kind : Kind,
      (state.tasks id).Asleep kind ∧ kind.ops.mustWait state.dev.currentLen = true := by
    have outside : (state.tasks id).critical = false := by
      by_contra inside
      have owner := (owned.holder id).mpr (by simpa using inside)
      simp [free] at owner
    rcases free_steps id free outside inProgress with ⟨effect, ran⟩ | ⟨kind, asleep⟩
    · exact absurd (run_enabled ran) enabled
    · have ⟨⟨call, activity⟩, interruptible, _⟩ := asleep
      exact ⟨kind, asleep, wakeInvariant_mustWait wake free activity interruptible⟩
  obtain ⟨first, inProgress⟩ := busy
  obtain ⟨kind, -, waits⟩ := sleeps first inProgress
  refine ⟨free, kind, waits, fun id alsoInProgress => ?_⟩
  obtain ⟨other, asleep, alsoWaits⟩ := sleeps id alsoInProgress
  exact Kind.mustWait_unique alsoWaits waits ▸ asleep

theorem helloDev_never_deadlocks_sleepyReader :
    ∃ state, run step initial (sleepyReader.take 6) = some state ∧
      ((∃ id next, step state (.run id 0) = some next) ∨
        state.dev.mutex = none ∧ ∃ kind : Kind, kind.ops.mustWait state.dev.currentLen = true ∧
          ∀ id, (state.tasks id).activity ≠ .idle → (state.tasks id).Asleep kind) := by
  refine ⟨_, rfl, helloDev_never_deadlocks (sleepyReader.take 6) _ rfl ?_ ⟨1, ?_⟩⟩
  · intro id pc
    by_cases reader : id = 1
    · subst reader
      exact Activity.noConfusion
    · simp [State.apply, State.setTask, reader, wakeUp, initial, Task.fresh]
  · exact Activity.noConfusion

end LearnK.GlobalFifo
