import LearnK.Thread.Core
import Mathlib.Data.List.Count

/-! Nothing of the module is left when it is gone: its thread has ended, its work is done, and the
exit gets there from wherever it is. -/

namespace LearnK.Thread

open StepMachine Timers

def ModulePc.threaded : ModulePc → Bool
  | .initReturned ret => ret = 0
  | .testTask | .kthreadStop | .waitStopped | .printStopped | .testWorkqueue | .flushWorkqueue
  | .destroyWorkqueue | .printDestroyed | .exitReturned => true
  | _ => false

def ModulePc.stopping : ModulePc → Bool
  | .waitStopped | .printStopped | .testWorkqueue | .flushWorkqueue | .destroyWorkqueue
  | .printDestroyed | .exitReturned => true
  | _ => false

def ModulePc.joined : ModulePc → Bool
  | .waitStopped => false
  | pc => pc.stopping

def ModulePc.queued : ModulePc → Bool
  | .kthreadRun | .destroyFailed _ | .printNoThread _ => true
  | pc => pc.threaded

/-- The workqueue is destroyed, or was never created. -/
def ModulePc.cleared : ModulePc → Bool
  | .createWorkqueue | .printNoWorkqueue | .printNoThread _ | .printDestroyed | .exitReturned => true
  | .initReturned ret => ret ≠ 0
  | _ => false

def ModulePc.loading : ModulePc → Bool
  | .createWorkqueue | .printNoWorkqueue | .queueWork | .kthreadRun | .destroyFailed _
  | .printNoThread _ => true
  | _ => false

def ModulePc.refused : ModulePc → Bool
  | .initReturned ret => ret ≠ 0
  | _ => false

def Work.left : Work → Nat
  | .idle => 0
  | .pending | .running => 1

def State.worked (state : State) : Nat := state.log.count .workRunning

def State.workLeft (state : State) : Nat := (state.demoWorkqueue.map Work.left).getD 0

structure Shape (state : State) : Prop where
  thread : state.demoTask.isSome = state.module.threaded
  stop : ∀ task ∈ state.demoTask, task.stop = state.module.stopping
  joined : state.module.joined = true → ∀ task ∈ state.demoTask, task.pc = .exited
  workqueue : state.demoWorkqueue.isNone = state.module.cleared
  work : state.module.refused = false → state.worked + state.workLeft = state.module.queued.toNat
  error : ∀ error,
    state.module = .destroyFailed error ∨ state.module = .printNoThread error → error < 0
  loading : state.module.loading = true → state.log = List.replicate state.worked .workRunning
  refused : state.module.refused = true →
    state.log = [.noWorkqueue] ∨ state.log = [.workRunning, .noThread]

section

variable {jiffies : Jiffies} {state next : State}

theorem threadFunction_effect {task : TaskStruct}
    (stepped : threadFunction jiffies state task = some next) :
    ∃ pc lines, next = { state with
        demoTask := some { task with pc := pc }
        log := state.log ++ lines } ∧
      (lines = [] ∨ task.pc = .printk ∧ lines = [.threadRunning state.now]) := by
  unfold threadFunction at stepped
  cases pc : task.pc with
  | created | shouldStop | msleep =>
      simp only [pc] at stepped
      obtain rfl := Option.some.inj stepped
      exact ⟨_, [], by rw [List.append_nil], .inl rfl⟩
  | printk =>
      simp only [pc] at stepped
      obtain rfl := Option.some.inj stepped
      exact ⟨_, _, rfl, .inr ⟨rfl, rfl⟩⟩
  | sleeping wake =>
      simp only [pc] at stepped
      split_ifs at stepped
      obtain rfl := Option.some.inj stepped
      exact ⟨_, [], by rw [List.append_nil], .inl rfl⟩
  | exited => simp [pc] at stepped

theorem ModulePc.threaded_later {pc : ModulePc} (threaded : pc.threaded = true) :
    pc.loading = false ∧ pc.refused = false := by
  cases pc <;> simp [ModulePc.threaded, ModulePc.loading, ModulePc.refused] at threaded ⊢
  exact threaded

theorem shape_thread {task : TaskStruct} (shape : Shape state) (there : state.demoTask = some task)
    (stepped : threadFunction jiffies state task = some next) : Shape next := by
  have threaded : state.module.threaded = true := by rw [← shape.thread, there]; rfl
  obtain ⟨early, refused⟩ := ModulePc.threaded_later threaded
  have alive : state.module.joined = false := by
    by_contra joined
    have exited := shape.joined (by simpa using joined) task there
    simp [threadFunction, exited] at stepped
  obtain ⟨pc, lines, rfl, printed⟩ := threadFunction_effect stepped
  have worked : (state.log ++ lines).count .workRunning = state.worked := by
    rw [List.count_append, State.worked]
    rcases printed with rfl | ⟨-, rfl⟩ <;> simp
  refine ⟨threaded.symm, ?_, by simp [alive], shape.workqueue, fun ready => ?_, shape.error,
    by simp [early], by simp [refused]⟩
  · simpa using shape.stop task there
  · rw [State.worked, worked]
    exact shape.work ready

theorem shape_work (shape : Shape state) (stepped : workqueueFunction state = some next) :
    Shape next := by
  unfold workqueueFunction at stepped
  cases work : state.demoWorkqueue with
  | none => simp [work] at stepped
  | some work' =>
      have present : state.module.cleared = false := by rw [← shape.workqueue, work]; rfl
      have ready : state.module.refused = false := by
        cases pc : state.module <;> simp [pc, ModulePc.refused, ModulePc.cleared] at present ⊢
        exact present
      have counted := shape.work ready
      rw [State.workLeft, work] at counted
      cases work' with
      | idle => simp [work] at stepped
      | pending =>
          simp only [work] at stepped
          obtain rfl := Option.some.inj stepped
          exact ⟨shape.thread, shape.stop, shape.joined, present.symm, fun _ => counted, shape.error,
            shape.loading, shape.refused⟩
      | running =>
          simp only [work] at stepped
          obtain rfl := Option.some.inj stepped
          have more : (state.log ++ [Message.workRunning]).count .workRunning = state.worked + 1 := by
            rw [List.count_append, State.worked]
            rfl
          refine ⟨shape.thread, shape.stop, shape.joined, present.symm, fun _ => ?_, shape.error,
            fun loading => ?_, by simp [State.say, ready]⟩
          · rw [State.worked, State.say, more]
            exact counted
          · rw [State.worked, State.say, more, List.replicate_succ']
            exact congrArg (· ++ _) (shape.loading loading)

theorem Shape.moved {source target : ModulePc} (shape : Shape state) (here : state.module = source)
    (there : next.module = target) (task : next.demoTask = state.demoTask)
    (workqueue : next.demoWorkqueue = state.demoWorkqueue) (worked : next.worked = state.worked)
    (threaded : target.threaded = source.threaded) (stopping : target.stopping = source.stopping)
    (joined : target.joined = true → source.joined = true) (cleared : target.cleared = source.cleared)
    (queued : target.queued = source.queued) (late : target.loading = false)
    (ready : source.refused = false) (accepted : target.refused = false) : Shape next := by
  have thread := shape.thread
  have stop := shape.stop
  have ended := shape.joined
  have present := shape.workqueue
  have work := shape.work
  rw [here] at thread stop ended present work
  refine ⟨?_, ?_, ?_, ?_, fun _ => ?_, fun error failing => ?_,
    by simp [there, late], by simp [there, accepted]⟩
  · rw [task, there, threaded]
    exact thread
  · rw [task, there, stopping]
    exact stop
  · rw [task, there]
    exact fun later => ended (joined later)
  · rw [workqueue, there, cleared]
    exact present
  · rw [worked, State.workLeft, workqueue, there, queued]
    exact work ready
  · rw [there] at failing
    rcases failing with rfl | rfl <;> simp [ModulePc.loading] at late

theorem Shape.early (task : next.demoTask = none) (threaded : next.module.threaded = false)
    (workqueue : next.demoWorkqueue.isNone = next.module.cleared)
    (work : next.module.refused = false → next.worked + next.workLeft = next.module.queued.toNat)
    (error : ∀ error,
      next.module = .destroyFailed error ∨ next.module = .printNoThread error → error < 0)
    (loading : next.module.loading = true → next.log = List.replicate next.worked .workRunning)
    (refused : next.module.refused = true →
      next.log = [.noWorkqueue] ∨ next.log = [.workRunning, .noThread]) : Shape next :=
  ⟨by rw [task, threaded]; rfl, by simp [task], by simp [task], workqueue, work, error, loading,
    refused⟩

theorem shape_load {answer : Int} (shape : Shape state) (loading : state.module.loading = true)
    (stepped : moduleStep answer state = some next) : Shape next := by
  have log := shape.loading loading
  have workqueue := shape.workqueue
  have work := shape.work
  have negative := shape.error
  have task : state.demoTask = none := by
    have unthreaded : state.module.threaded = false := by
      cases pc : state.module <;> simp [pc, ModulePc.loading] at loading <;> rfl
    rw [← Option.not_isSome_iff_eq_none, shape.thread, unthreaded]
    exact Bool.false_ne_true
  unfold moduleStep at stepped
  cases pc : state.module with
  | createWorkqueue =>
      rw [pc] at workqueue work
      have unworked : state.worked = 0 := (Nat.add_eq_zero_iff.mp (work rfl)).1
      simp only [pc] at stepped
      split_ifs at stepped
      · obtain rfl := Option.some.inj stepped
        exact .early task rfl workqueue work (by simp [State.goto]) (fun _ => log)
          (by simp [State.goto, ModulePc.refused])
      · obtain rfl := Option.some.inj stepped
        exact .early task rfl rfl (fun _ => unworked) (by simp [State.goto]) (fun _ => log)
          (by simp [State.goto, ModulePc.refused])
  | printNoWorkqueue =>
      rw [pc] at workqueue work
      have unworked : state.worked = 0 := (Nat.add_eq_zero_iff.mp (work rfl)).1
      simp only [pc] at stepped
      obtain rfl := Option.some.inj stepped
      rw [unworked] at log
      exact .early task rfl workqueue (by simp [State.goto, ModulePc.refused, enomem])
        (by simp [State.goto]) (by simp [State.goto, ModulePc.loading])
        (fun _ => .inl (by simp [State.goto, State.say, log]))
  | queueWork =>
      rw [pc] at work
      have unworked : state.worked = 0 := (Nat.add_eq_zero_iff.mp (work rfl)).1
      simp only [pc] at stepped
      obtain rfl := Option.some.inj stepped
      exact .early task rfl rfl (fun _ => congrArg (· + 1) unworked) (by simp [State.goto])
        (fun _ => log) (by simp [State.goto, ModulePc.refused])
  | kthreadRun =>
      rw [pc] at workqueue work
      simp only [pc] at stepped
      split_ifs at stepped with failed
      · obtain rfl := Option.some.inj stepped
        exact .early task rfl workqueue work (by simp [State.goto, failed]) (fun _ => log)
          (by simp [State.goto, ModulePc.refused])
      · obtain rfl := Option.some.inj stepped
        exact ⟨rfl, by simp [State.goto, ModulePc.stopping],
          by simp [State.goto, ModulePc.joined, ModulePc.stopping],
          workqueue, work, by simp [State.goto], by simp [State.goto, ModulePc.loading],
          by simp [State.goto, ModulePc.refused]⟩
  | destroyFailed error =>
      rw [pc] at work negative
      simp only [pc] at stepped
      split_ifs at stepped with idle
      obtain rfl := Option.some.inj stepped
      have once : state.worked + 0 = 1 := by
        have counted := work rfl
        rwa [State.workLeft, idle] at counted
      exact .early task rfl rfl (fun _ => once)
        (fun other same => negative other (by simpa [State.goto, eq_comm] using same)) (fun _ => log)
        (by simp [State.goto, ModulePc.refused])
  | printNoThread error =>
      rw [pc] at work negative workqueue
      have failed : error < 0 := negative error (.inr rfl)
      have differs : error ≠ 0 := Int.ne_of_lt failed
      have none : state.demoWorkqueue = none := Option.isNone_iff_eq_none.mp workqueue
      have once : state.worked + 0 = 1 := by
        have counted := work rfl
        rwa [State.workLeft, none] at counted
      simp only [pc] at stepped
      obtain rfl := Option.some.inj stepped
      have one : state.worked = 1 := once
      rw [one] at log
      exact .early task (by simp [State.goto, ModulePc.threaded, differs])
        (by simp [State.goto, State.say, none, ModulePc.cleared, differs])
        (by simp [State.goto, ModulePc.refused, differs]) (by simp [State.goto])
        (by simp [State.goto, ModulePc.loading])
        (fun _ => .inr (by simp [State.goto, State.say, log]))
  | _ => simp [pc, ModulePc.loading] at loading

theorem shape_unload {answer : Int} (shape : Shape state) (loading : state.module.loading = false)
    (stepped : moduleStep answer state = some next) : Shape next := by
  have thread := shape.thread
  have stop := shape.stop
  have workqueue := shape.workqueue
  have work := shape.work
  unfold moduleStep at stepped
  cases pc : state.module with
  | initReturned ret =>
      simp only [pc] at stepped
      split_ifs at stepped with success
      subst success
      obtain rfl := Option.some.inj stepped
      exact shape.moved pc rfl rfl rfl rfl rfl rfl (fun later => absurd later Bool.false_ne_true)
        rfl rfl rfl rfl rfl
  | testTask =>
      rw [pc] at thread
      have started : state.demoTask.isSome = true := thread
      simp only [pc, started, if_true] at stepped
      obtain rfl := Option.some.inj stepped
      exact shape.moved pc rfl rfl rfl rfl rfl rfl (fun later => absurd later Bool.false_ne_true)
        rfl rfl rfl rfl rfl
  | kthreadStop =>
      rw [pc] at thread workqueue work
      simp only [pc] at stepped
      obtain rfl := Option.some.inj stepped
      refine ⟨?_, fun told member => ?_, by simp [State.goto, ModulePc.joined], workqueue, work,
        by simp [State.goto], by simp [State.goto, ModulePc.loading],
        by simp [State.goto, ModulePc.refused]⟩
      · rw [State.goto, Option.isSome_map]
        exact thread
      · obtain ⟨task, -, rfl⟩ := Option.map_eq_some_iff.mp member
        rfl
  | waitStopped =>
      rw [pc] at thread stop workqueue work
      simp only [pc] at stepped
      split_ifs at stepped with exited
      obtain rfl := Option.some.inj stepped
      refine ⟨thread, stop, fun _ task there => ?_, workqueue, work, by simp [State.goto],
        by simp [State.goto, ModulePc.loading], by simp [State.goto, ModulePc.refused]⟩
      have there' : state.demoTask = some task := there
      simpa [there'] using exited
  | printStopped =>
      simp only [pc] at stepped
      obtain rfl := Option.some.inj stepped
      have worked : (state.log ++ [Message.stopped]).count .workRunning = state.worked := by
        simp [State.worked]
      exact shape.moved pc rfl rfl rfl worked rfl rfl (fun _ => rfl) rfl rfl rfl rfl rfl
  | testWorkqueue =>
      rw [pc] at workqueue
      have created : state.demoWorkqueue.isSome = true := by
        cases work : state.demoWorkqueue with
        | none => simp [work, ModulePc.cleared] at workqueue
        | some _ => rfl
      simp only [pc, created, if_true] at stepped
      obtain rfl := Option.some.inj stepped
      exact shape.moved pc rfl rfl rfl rfl rfl rfl (fun _ => rfl) rfl rfl rfl rfl rfl
  | flushWorkqueue =>
      simp only [pc] at stepped
      split_ifs at stepped
      obtain rfl := Option.some.inj stepped
      exact shape.moved pc rfl rfl rfl rfl rfl rfl (fun _ => rfl) rfl rfl rfl rfl rfl
  | destroyWorkqueue =>
      have joined := shape.joined
      rw [pc] at thread stop joined work
      simp only [pc] at stepped
      split_ifs at stepped with idle
      obtain rfl := Option.some.inj stepped
      have once : state.worked + 0 = 1 := by
        have counted := work rfl
        rwa [State.workLeft, idle] at counted
      exact ⟨thread, stop, joined, rfl, fun _ => once, by simp [State.goto],
        by simp [State.goto, ModulePc.loading], by simp [State.goto, ModulePc.refused]⟩
  | printDestroyed =>
      simp only [pc] at stepped
      obtain rfl := Option.some.inj stepped
      have worked : (state.log ++ [Message.destroyed]).count .workRunning = state.worked := by
        simp [State.worked]
      exact shape.moved pc rfl rfl rfl worked rfl rfl (fun _ => rfl) rfl rfl rfl rfl rfl
  | exitReturned => simp [pc] at stepped
  | _ => simp [pc, ModulePc.loading] at loading

theorem shape_step {action : Action} (shape : Shape state)
    (stepped : step jiffies state action = some next) :
    Shape next := by
  cases action with
  | elapse time =>
      obtain rfl := Option.some.inj stepped
      exact ⟨shape.thread, shape.stop, shape.joined, shape.workqueue, shape.work, shape.error,
        shape.loading, shape.refused⟩
  | thread =>
      obtain ⟨task, there, ran⟩ := Option.bind_eq_some_iff.mp stepped
      exact shape_thread shape there ran
  | work => exact shape_work shape stepped
  | module answer =>
      cases loading : state.module.loading with
      | true => exact shape_load shape loading stepped
      | false => exact shape_unload shape loading stepped

end

theorem shape_initial : Shape initial := by
  refine .early rfl rfl rfl (fun _ => rfl) ?_ (fun _ => rfl) ?_ <;> simp [initial, ModulePc.refused]

/-- The load has failed or the exit has returned. -/
def ModulePc.gone : ModulePc → Bool
  | .exitReturned => true
  | pc => pc.refused

section

variable {jiffies : Jiffies} {state next : State}

theorem Shape.ended (shape : Shape state) (gone : state.module.gone = true) :
    state.demoWorkqueue = none ∧ ∀ task ∈ state.demoTask, task.pc = .exited := by
  have cleared : state.module.cleared = true := by
    cases pc : state.module <;> simp [pc, ModulePc.gone, ModulePc.refused, ModulePc.cleared] at gone ⊢
    exact gone
  refine ⟨Option.isNone_iff_eq_none.mp (shape.workqueue.trans cleared), fun task there => ?_⟩
  have threaded : state.module.threaded = true := by
    rw [← shape.thread, Option.mem_def.mp there]
    rfl
  refine shape.joined ?_ task there
  cases pc : state.module <;>
    simp [pc, ModulePc.gone, ModulePc.refused, ModulePc.threaded] at gone threaded
  · exact absurd threaded gone
  · rfl

theorem Shape.still {action : Action} (shape : Shape state) (gone : state.module.gone = true)
    (stepped : step jiffies state action = some next) : next = { state with now := next.now } := by
  obtain ⟨destroyed, exited⟩ := shape.ended gone
  cases action with
  | elapse time =>
      obtain rfl := Option.some.inj stepped
      rfl
  | thread =>
      obtain ⟨task, there, ran⟩ := Option.bind_eq_some_iff.mp stepped
      simp [threadFunction, exited task there] at ran
  | work => simp [step, workqueueFunction, destroyed] at stepped
  | module answer =>
      simp only [step, moduleStep] at stepped
      cases pc : state.module with
      | exitReturned => simp [pc] at stepped
      | initReturned ret =>
          have failed : ret ≠ 0 := by simpa [pc, ModulePc.gone, ModulePc.refused] using gone
          simp [pc, failed] at stepped
      | _ => simp [pc, ModulePc.gone, ModulePc.refused] at gone

theorem thread_ends (jiffies : Jiffies) (pc : ThreadPc) (state : State)
    (there : state.demoTask = some ⟨pc, true⟩) :
    CanReach (step jiffies) (fun final => final.module = state.module ∧
      final.demoWorkqueue = state.demoWorkqueue ∧ final.demoTask = some ⟨.exited, true⟩) state := by
  have move {task : TaskStruct} {before after : State} (found : before.demoTask = some task)
      (ran : threadFunction jiffies before task = some after) :
      step jiffies before .thread = some after := by
    rw [step, found]
    exact ran
  cases pc with
  | exited => exact .here ⟨rfl, rfl, there⟩
  | created | shouldStop => exact .cons .thread (move there rfl) (.here ⟨rfl, rfl, rfl⟩)
  | sleeping wake =>
      refine .cons (.elapse wake) rfl (.cons .thread (move there (if_pos ?_)) ?_)
      · exact Nat.le_add_left _ _
      · exact .cons .thread rfl (.here ⟨rfl, rfl, rfl⟩)
  | msleep =>
      refine .cons .thread (move there rfl) (.cons (.elapse (jiffies.msecsToJiffies 1000)) rfl
        (.cons .thread (if_pos (Nat.le_refl _)) ?_))
      exact .cons .thread rfl (.here ⟨rfl, rfl, rfl⟩)
  | printk =>
      refine .cons .thread (move there rfl)
        (.cons .thread rfl (.cons (.elapse (jiffies.msecsToJiffies 1000)) rfl
        (.cons .thread (if_pos (Nat.le_refl _)) ?_)))
      exact .cons .thread rfl (.here ⟨rfl, rfl, rfl⟩)

theorem work_ends (jiffies : Jiffies) (state : State) {work : Work}
    (there : state.demoWorkqueue = some work) :
    CanReach (step jiffies)
      (fun final => final.module = state.module ∧ final.demoWorkqueue = some .idle) state := by
  cases work with
  | idle => exact .here ⟨rfl, there⟩
  | pending =>
      have taken : workqueueFunction state = some { state with demoWorkqueue := some .running } := by
        rw [workqueueFunction, there]
      exact .cons .work taken (.cons .work rfl (.here ⟨rfl, rfl⟩))
  | running =>
      have done : workqueueFunction state =
          some ({ state with demoWorkqueue := some .idle }.say .workRunning) := by
        rw [workqueueFunction, there]
      exact .cons .work done (.here ⟨rfl, rfl⟩)

def ModulePc.unloading : ModulePc → Bool
  | .testTask | .kthreadStop => true
  | pc => pc.stopping

theorem module_moves (jiffies : Jiffies) {pc : ModulePc} {Goal : State → Prop}
    (here : state.module = pc)
    (moves : moduleStep 0 { state with module := pc } = some next)
    (later : CanReach (step jiffies) Goal next) :
    CanReach (step jiffies) Goal state := by
  refine .cons (.module 0) ?_ later
  subst here
  exact moves

theorem exit_flushed (jiffies : Jiffies) {pc : ModulePc} (here : state.module = pc)
    (last : pc = .flushWorkqueue ∨ pc = .destroyWorkqueue) (idle : state.demoWorkqueue = some .idle) :
    CanReach (step jiffies) (·.module = .exitReturned) state := by
  have destroys (before : State) (at_ : before.module = .destroyWorkqueue)
      (idle : before.demoWorkqueue = some .idle) :
      CanReach (step jiffies) (·.module = .exitReturned) before :=
    module_moves jiffies at_ (if_pos idle) (module_moves jiffies rfl rfl (.here rfl))
  rcases last with rfl | rfl
  · exact module_moves jiffies here (if_pos idle) (destroys _ rfl idle)
  · exact destroys state here idle

theorem exit_waits (jiffies : Jiffies) {pc : ModulePc} {work : Work} (here : state.module = pc)
    (last : pc = .flushWorkqueue ∨ pc = .destroyWorkqueue) (there : state.demoWorkqueue = some work) :
    CanReach (step jiffies) (·.module = .exitReturned) state :=
  (work_ends jiffies state there).trans fun _ ended =>
    exit_flushed jiffies (ended.1.trans here) last ended.2

theorem exit_tests (jiffies : Jiffies) {work : Work} (here : state.module = .testWorkqueue)
    (there : state.demoWorkqueue = some work) :
    CanReach (step jiffies) (·.module = .exitReturned) state := by
  have moves : moduleStep 0 { state with module := .testWorkqueue } =
      some (state.goto .flushWorkqueue) := by
    simp [moduleStep, there, State.goto]
  exact module_moves jiffies here moves (exit_waits jiffies rfl (.inl rfl) there)

theorem exit_joins (jiffies : Jiffies) {work : Work} {pc : ThreadPc}
    (here : state.module = .waitStopped)
    (there : state.demoWorkqueue = some work) (told : state.demoTask = some ⟨pc, true⟩) :
    CanReach (step jiffies) (·.module = .exitReturned) state := by
  refine (thread_ends jiffies pc state told).trans fun middle ended => ?_
  obtain ⟨same, kept, exited⟩ := ended
  have moves : moduleStep 0 { middle with module := .waitStopped } =
      some (middle.goto .printStopped) := by
    simp [moduleStep, exited, State.goto]
  exact module_moves jiffies (same.trans here) moves
    (module_moves jiffies rfl rfl (exit_tests jiffies rfl (kept.trans there)))

theorem exit_completes (jiffies : Jiffies) (shape : Shape state)
    (unloading : state.module.unloading = true) :
    CanReach (step jiffies) (·.module = .exitReturned) state := by
  have thread := shape.thread
  have created (at_ : state.module.cleared = false) : ∃ work, state.demoWorkqueue = some work := by
    have present := shape.workqueue
    rw [at_] at present
    exact Option.isSome_iff_exists.mp (by simpa using present)
  cases pc : state.module with
  | testTask =>
      obtain ⟨work, there⟩ := created (by rw [pc]; rfl)
      rw [pc] at thread
      obtain ⟨task, started⟩ := Option.isSome_iff_exists.mp thread
      have moves : moduleStep 0 { state with module := .testTask } =
          some (state.goto .kthreadStop) := by
        simp [moduleStep, started, State.goto]
      have stops : ({ state with demoTask := state.demoTask.map TaskStruct.setStop }.goto
          .waitStopped).demoTask = some ⟨task.pc, true⟩ := by
        rw [State.goto, started]
        rfl
      exact module_moves jiffies pc moves
        (module_moves jiffies rfl rfl (exit_joins jiffies rfl there stops))
  | kthreadStop =>
      obtain ⟨work, there⟩ := created (by rw [pc]; rfl)
      rw [pc] at thread
      obtain ⟨task, started⟩ := Option.isSome_iff_exists.mp thread
      have stops : ({ state with demoTask := state.demoTask.map TaskStruct.setStop }.goto
          .waitStopped).demoTask = some ⟨task.pc, true⟩ := by
        rw [State.goto, started]
        rfl
      exact module_moves jiffies pc rfl (exit_joins jiffies rfl there stops)
  | waitStopped =>
      obtain ⟨work, there⟩ := created (by rw [pc]; rfl)
      have stop := shape.stop
      rw [pc] at thread stop
      obtain ⟨task, started⟩ := Option.isSome_iff_exists.mp thread
      have told : task.stop = true := stop task started
      exact exit_joins jiffies pc there (by rw [started, ← told])
  | printStopped =>
      obtain ⟨work, there⟩ := created (by rw [pc]; rfl)
      exact module_moves jiffies pc rfl (exit_tests jiffies rfl there)
  | testWorkqueue =>
      obtain ⟨work, there⟩ := created (by rw [pc]; rfl)
      exact exit_tests jiffies pc there
  | flushWorkqueue =>
      obtain ⟨work, there⟩ := created (by rw [pc]; rfl)
      exact exit_waits jiffies pc (.inl rfl) there
  | destroyWorkqueue =>
      obtain ⟨work, there⟩ := created (by rw [pc]; rfl)
      exact exit_waits jiffies pc (.inr rfl) there
  | printDestroyed => exact module_moves jiffies pc rfl (.here rfl)
  | exitReturned => exact .here pc
  | _ => simp [pc, ModulePc.unloading, ModulePc.stopping] at unloading

end

/-- In every run: when the load has failed or the exit has returned, the thread has ended, the
workqueue is gone and only time goes on; the work has run once by then, unless there was never a
workqueue; and from wherever the exit is it can return. -/
theorem threadDemo_leaves_nothing (jiffies : Jiffies) (actions more : List Action) :
    Always (step jiffies) (fun state =>
      (state.module.gone = true →
        state.demoWorkqueue = none ∧ (∀ task ∈ state.demoTask, task.pc = .exited) ∧
        (state.log = [.noWorkqueue] ∨ state.worked = 1) ∧
        Always (step jiffies) (fun later => later = { state with now := later.now }) state more) ∧
      (state.module.unloading = true → CanReach (step jiffies) (·.module = .exitReturned) state))
      initial actions := by
  have shapes : Always (step jiffies) Shape initial actions :=
    always_invariant (fun _ _ _ shape stepped => shape_step shape stepped) shape_initial actions
  refine shapes.imp fun state shape => ⟨fun gone => ?_, exit_completes jiffies shape⟩
  obtain ⟨destroyed, exited⟩ := shape.ended gone
  refine ⟨destroyed, exited, ?_, ?_⟩
  · cases refused : state.module.refused with
    | true =>
        refine (shape.refused refused).imp_right fun log => ?_
        rw [State.worked, log]
        rfl
    | false =>
        refine .inr ?_
        have counted := shape.work refused
        rw [State.workLeft, destroyed] at counted
        cases pc : state.module <;> simp [pc, ModulePc.gone, ModulePc.refused] at gone refused
        · exact absurd refused gone
        · rw [pc] at counted
          exact counted
  · have kept : Always (step jiffies) (fun later => Shape later ∧ later.module.gone = true ∧
        later = { state with now := later.now }) state more := by
      refine always_invariant (fun now action next before stepped => ?_) ⟨shape, gone, rfl⟩ more
      obtain ⟨formed, still, same⟩ := before
      have moved := formed.still still stepped
      refine ⟨shape_step formed stepped, ?_, ?_⟩
      · rw [moved]
        exact still
      · rw [moved, same]
    exact kept.imp fun _ both => both.2.2

end LearnK.Thread
