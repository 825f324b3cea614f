import LearnK.Thread.Life
import Mathlib.Data.List.Chain

/-! What the thread prints: lines a second apart or more, and at most one more after it was told to
stop. -/

namespace LearnK.Thread

open StepMachine Timers

def Message.line : Message → Option Nat
  | .threadRunning time => some time
  | _ => none

def State.lines (state : State) : List Nat := state.log.filterMap Message.line

/-- How far the last line is back, by what the thread is at. -/
def ThreadPc.Since (interval now : Nat) (lines : List Nat) : ThreadPc → Prop
  | .created => lines = []
  | .shouldStop | .printk => ∀ last ∈ lines.getLast?, last + interval ≤ now
  | .msleep => ∀ last ∈ lines.getLast?, last ≤ now
  | .sleeping wake => ∀ last ∈ lines.getLast?, last + interval ≤ wake
  | .exited => True

structure Spaced (interval : Nat) (state : State) : Prop where
  chain : state.lines.IsChain fun before after => before + interval ≤ after
  silent : state.demoTask = none → state.lines = []
  since : ∀ task ∈ state.demoTask, task.pc.Since interval state.now state.lines

/-- What a thread that was told to stop may still print. -/
def ThreadPc.due : ThreadPc → Nat
  | .printk => 1
  | _ => 0

section

variable {jiffies : Jiffies} {interval : Nat} {state next : State}

theorem State.lines_say {message : Message} (silent : message.line = none) :
    (state.say message).lines = state.lines := by
  rw [State.lines, State.say, List.filterMap_append]
  simp [silent, State.lines]

theorem ThreadPc.Since.elapse {pc : ThreadPc} {now later : Nat} {lines : List Nat}
    (since : pc.Since interval now lines) (passed : now ≤ later) : pc.Since interval later lines := by
  cases pc with
  | created | sleeping wake | exited => exact since
  | shouldStop | printk | msleep => exact fun last ends => Nat.le_trans (since last ends) passed

theorem Spaced.moves (spaced : Spaced interval state) {task : TaskStruct}
    (since : task.pc.Since interval state.now state.lines) :
    Spaced interval { state with demoTask := some task } := by
  refine ⟨spaced.chain, by simp, fun moved same => ?_⟩
  obtain rfl := Option.some.inj same
  exact since

theorem spaced_thread {task : TaskStruct} (spaced : Spaced (jiffies.msecsToJiffies 1000) state)
    (there : state.demoTask = some task) (stepped : threadFunction jiffies state task = some next) :
    Spaced (jiffies.msecsToJiffies 1000) next := by
  have since := spaced.since task there
  unfold threadFunction at stepped
  cases pc : task.pc with
  | created =>
      rw [pc] at since
      have empty : state.lines = [] := since
      simp only [pc] at stepped
      obtain rfl := Option.some.inj stepped
      refine spaced.moves ?_
      split
      · trivial
      · simp [ThreadPc.Since, empty]
  | shouldStop =>
      rw [pc] at since
      simp only [pc] at stepped
      obtain rfl := Option.some.inj stepped
      refine spaced.moves ?_
      split
      · trivial
      · exact since
  | printk =>
      rw [pc] at since
      simp only [pc] at stepped
      obtain rfl := Option.some.inj stepped
      have printed : ({ state with demoTask := some { task with pc := .msleep } }.say
          (.threadRunning state.now)).lines = state.lines ++ [state.now] := by
        rw [State.lines, State.say, List.filterMap_append]
        rfl
      refine ⟨?_, by simp [State.say], fun moved same => ?_⟩
      · rw [printed]
        refine spaced.chain.append (List.isChain_singleton _) fun last ends first here => ?_
        obtain rfl : state.now = first := by simpa using here
        exact since last ends
      · obtain rfl := Option.some.inj same
        rw [printed]
        intro last ends
        obtain rfl : state.now = last := by simpa using ends
        exact Nat.le_refl _
  | msleep =>
      rw [pc] at since
      simp only [pc] at stepped
      obtain rfl := Option.some.inj stepped
      exact spaced.moves fun last ends => Nat.add_le_add_right (since last ends) _
  | sleeping wake =>
      rw [pc] at since
      simp only [pc] at stepped
      split_ifs at stepped with awake
      obtain rfl := Option.some.inj stepped
      exact spaced.moves fun last ends => Nat.le_trans (since last ends) awake
  | exited => simp [pc] at stepped

structure LeavesThread (state next : State) : Prop where
  lines : next.lines = state.lines
  now : next.now = state.now
  task : next.demoTask = state.demoTask ∨ next.demoTask = state.demoTask.map TaskStruct.setStop ∨
    state.demoTask = none ∧ next.demoTask = some ⟨.created, false⟩

theorem moduleStep_leaves {answer : Int} (shape : Shape state)
    (stepped : moduleStep answer state = some next) : LeavesThread state next := by
  have thread := shape.thread
  unfold moduleStep at stepped
  cases pc : state.module with
  | kthreadRun =>
      rw [pc] at thread
      have absent : state.demoTask = none :=
        Option.not_isSome_iff_eq_none.mp (thread ▸ Bool.false_ne_true)
      simp only [pc] at stepped
      split_ifs at stepped
      · obtain rfl := Option.some.inj stepped
        exact ⟨rfl, rfl, .inl rfl⟩
      · obtain rfl := Option.some.inj stepped
        exact ⟨rfl, rfl, .inr (.inr ⟨absent, rfl⟩)⟩
  | kthreadStop =>
      simp only [pc] at stepped
      obtain rfl := Option.some.inj stepped
      exact ⟨rfl, rfl, .inr (.inl rfl)⟩
  | printNoWorkqueue | printNoThread error | printStopped | printDestroyed =>
      simp only [pc] at stepped
      obtain rfl := Option.some.inj stepped
      exact ⟨State.lines_say rfl, rfl, .inl rfl⟩
  | queueWork | testTask | testWorkqueue =>
      simp only [pc] at stepped
      obtain rfl := Option.some.inj stepped
      exact ⟨rfl, rfl, .inl rfl⟩
  | createWorkqueue =>
      simp only [pc] at stepped
      split_ifs at stepped <;> obtain rfl := Option.some.inj stepped <;> exact ⟨rfl, rfl, .inl rfl⟩
  | destroyFailed error | initReturned ret | waitStopped | flushWorkqueue | destroyWorkqueue =>
      simp only [pc] at stepped
      split_ifs at stepped
      obtain rfl := Option.some.inj stepped
      exact ⟨rfl, rfl, .inl rfl⟩
  | exitReturned => simp [pc] at stepped

theorem workqueueFunction_leaves (stepped : workqueueFunction state = some next) :
    LeavesThread state next := by
  unfold workqueueFunction at stepped
  split at stepped
  · obtain rfl := Option.some.inj stepped
    exact ⟨rfl, rfl, .inl rfl⟩
  · obtain rfl := Option.some.inj stepped
    exact ⟨State.lines_say rfl, rfl, .inl rfl⟩
  · simp at stepped

theorem Spaced.leaves (spaced : Spaced interval state) (leaves : LeavesThread state next) :
    Spaced interval next := by
  obtain ⟨lines, now, task⟩ := leaves
  refine ⟨?_, fun absent => ?_, fun moved there => ?_⟩
  · rw [lines]
    exact spaced.chain
  · rw [lines]
    rcases task with same | told | ⟨-, started⟩
    · exact spaced.silent (same ▸ absent)
    · exact spaced.silent (Option.map_eq_none_iff.mp (told ▸ absent))
    · simp [started] at absent
  · rw [lines, now]
    rcases task with same | told | ⟨none, started⟩
    · exact spaced.since moved (same ▸ there)
    · rw [told] at there
      obtain ⟨task, found, rfl⟩ := Option.map_eq_some_iff.mp there
      exact spaced.since task found
    · rw [started] at there
      obtain rfl := Option.some.inj there
      exact spaced.silent none

theorem spaced_step {action : Action} (shape : Shape state)
    (spaced : Spaced (jiffies.msecsToJiffies 1000) state)
    (stepped : step jiffies state action = some next) :
    Spaced (jiffies.msecsToJiffies 1000) next := by
  cases action with
  | elapse time =>
      obtain rfl := Option.some.inj stepped
      exact ⟨spaced.chain, spaced.silent,
        fun task there => (spaced.since task there).elapse (Nat.le_add_right _ _)⟩
  | thread =>
      obtain ⟨task, there, ran⟩ := Option.bind_eq_some_iff.mp stepped
      exact spaced_thread spaced there ran
  | work => exact spaced.leaves (workqueueFunction_leaves stepped)
  | module answer => exact spaced.leaves (moduleStep_leaves shape stepped)

def Told (bound : Nat) (state : State) : Prop :=
  ∃ task, state.demoTask = some task ∧ task.stop = true ∧ state.lines.length + task.pc.due ≤ bound

theorem told_thread {bound : Nat} (told : Told bound state)
    (stepped : state.demoTask.bind (threadFunction jiffies state) = some next) : Told bound next := by
  obtain ⟨task, there, stop, few⟩ := told
  rw [there, Option.bind_some] at stepped
  unfold threadFunction at stepped
  cases pc : task.pc with
  | created | shouldStop =>
      simp only [pc, stop, if_true] at stepped
      obtain rfl := Option.some.inj stepped
      exact ⟨_, rfl, rfl, Nat.le_trans (Nat.le_add_right _ _) few⟩
  | printk =>
      simp only [pc] at stepped
      obtain rfl := Option.some.inj stepped
      refine ⟨_, rfl, stop, ?_⟩
      rw [pc] at few
      rw [State.lines, State.say, List.filterMap_append, List.length_append]
      exact few
  | msleep =>
      simp only [pc] at stepped
      obtain rfl := Option.some.inj stepped
      exact ⟨_, rfl, stop, Nat.le_trans (Nat.le_add_right _ _) few⟩
  | sleeping wake =>
      simp only [pc] at stepped
      split_ifs at stepped
      obtain rfl := Option.some.inj stepped
      exact ⟨_, rfl, stop, Nat.le_trans (Nat.le_add_right _ _) few⟩
  | exited => simp [pc] at stepped

theorem Told.leaves {bound : Nat} (told : Told bound state) (leaves : LeavesThread state next) :
    Told bound next := by
  obtain ⟨task, there, stop, few⟩ := told
  rcases leaves.task with same | mapped | ⟨none, -⟩
  · exact ⟨task, same.trans there, stop, by rwa [leaves.lines]⟩
  · refine ⟨task.setStop, by rw [mapped, there]; rfl, rfl, ?_⟩
    rw [leaves.lines]
    exact few
  · simp [none] at there

theorem told_step {bound : Nat} {action : Action} (shape : Shape state) (told : Told bound state)
    (stepped : step jiffies state action = some next) : Told bound next := by
  cases action with
  | elapse time =>
      obtain rfl := Option.some.inj stepped
      exact told
  | thread => exact told_thread told stepped
  | work => exact told.leaves (workqueueFunction_leaves stepped)
  | module answer => exact told.leaves (moduleStep_leaves shape stepped)

theorem told_kthreadStop {answer : Int} (shape : Shape state) (stops : state.module = .kthreadStop)
    (stepped : moduleStep answer state = some next) : Told (state.lines.length + 1) next := by
  have thread := shape.thread
  rw [stops] at thread
  obtain ⟨task, there⟩ := Option.isSome_iff_exists.mp thread
  rw [moduleStep, stops] at stepped
  obtain rfl := Option.some.inj stepped
  refine ⟨task.setStop, by rw [State.goto, there]; rfl, rfl, Nat.add_le_add_left ?_ _⟩
  cases pc : task.pc <;> simp [TaskStruct.setStop, pc, ThreadPc.due]

end

theorem spaced_initial (interval : Nat) : Spaced interval initial :=
  ⟨List.isChain_nil, fun _ => rfl, by simp [initial]⟩

/-- In every run, between one line of the thread and the next there is a second or more, and after
`kthread_stop` has told it to stop it prints one more line at most. -/
theorem threadFunction_lines (jiffies : Jiffies) (actions more : List Action) (answer : Int) :
    Always (step jiffies) (fun state =>
      (state.lines.IsChain fun before after => before + jiffies.msecsToJiffies 1000 ≤ after ∧
        before + jiffies.hz ≤ after) ∧
      ∀ next, state.module = .kthreadStop → step jiffies state (.module answer) = some next →
        Always (step jiffies) (fun later => later.lines.length ≤ state.lines.length + 1) next more)
      initial actions := by
  have spaced : Always (step jiffies)
      (fun state => Shape state ∧ Spaced (jiffies.msecsToJiffies 1000) state)
      initial actions :=
    always_invariant (fun _ _ _ before stepped =>
      ⟨shape_step before.1 stepped, spaced_step before.1 before.2 stepped⟩)
      ⟨shape_initial, spaced_initial _⟩ actions
  have long := jiffies.second_le
  refine spaced.imp fun state both => ⟨?_, fun next stops stepped => ?_⟩
  · exact both.2.chain.imp fun before after apart => ⟨apart, by omega⟩
  · have told : Always (step jiffies) (fun later => Shape later ∧ Told (state.lines.length + 1) later)
        next more :=
      always_invariant (fun _ _ _ before stepped =>
        ⟨shape_step before.1 stepped, told_step before.1 before.2 stepped⟩)
        ⟨shape_step both.1 stepped, told_kthreadStop both.1 stops stepped⟩ more
    refine told.imp fun later now => ?_
    obtain ⟨-, task, -, -, few⟩ := now
    exact Nat.le_trans (Nat.le_add_right _ _) few

end LearnK.Thread
