import LearnK.Ftrace.Unload

/-! The hook seen from outside: a call of `path_mount` with all the calls that it causes runs the
original once for each of them, with or without the hook, and `ftrace_path_mount` once around it. -/

namespace LearnK.Ftrace

open StepMachine

/-- The calls that one run of the original causes, in order, each with those that it causes itself
and with what the original returns for it. -/
inductive Calls
  | none
  | call (args : MountArgs) (nested : Calls) (ret : Int32) (rest : Calls)

structure Plan where
  calls : Calls
  ret : Int32

inductive Event
  | hooked (args : MountArgs)
  | original (args : MountArgs)
  | originalReturned (args : MountArgs) (ret : Int32)
  | returned (args : MountArgs) (ret : Int32)
  deriving DecidableEq, Repr

def Event.ofOriginal : Event → Bool
  | .original _ | .originalReturned _ _ => true
  | .hooked _ | .returned _ _ => false

structure Traced where
  task : Task
  plans : List Plan
  log : List Event

def Frame.events (armed : Bool) : Frame → List Event
  | .pathMount _ args .entry => if armed then [] else [.original args]
  | .pathMount _ args (.resume .function) => [.hooked args]
  | .pathMount _ args (.resume .original) => [.original args]
  | .ftracePathMount args (.leave ret) => [.returned args ret]
  | _ => []

/-- The original follows its plan; `buf` is what `kmalloc` answers where it is called. -/
def tracedStep (armed : Bool) (traced : Traced) (buf : Int32) : Option Traced :=
  match traced.task.stack with
  | [] => none
  | .pathMount _ args .body :: _ =>
      match traced.plans with
      | [] => none
      | ⟨.call inner nested ret rest, own⟩ :: plans =>
          (nestCall inner traced.task).map fun task =>
            ⟨task, ⟨nested, ret⟩ :: ⟨rest, own⟩ :: plans, traced.log⟩
      | ⟨.none, ret⟩ :: plans =>
          (taskStep armed ret traced.task).map fun task =>
            ⟨task, plans, traced.log ++ [.originalReturned args ret]⟩
  | frame :: _ =>
      (taskStep armed buf traced.task).map fun task =>
        ⟨task, traced.plans, traced.log ++ frame.events armed⟩

def Runs (state : State) (task : Task) : Prop :=
  state.module = .exitReturned → state.armed = false ∧ task.Plain

theorem Runs.runTask {state : State} {task : Task} (runs : Runs state task) (answer : Int32) :
    state.runTask answer task = taskStep state.armed answer task := by
  by_cases gone : state.module = .exitReturned
  · exact runTask_plain (runs gone).2 answer
  · exact runTask_loaded gone answer task

theorem Runs.taskStep {state : State} {task next : Task} {answer : Int32} (runs : Runs state task)
    (stepped : taskStep state.armed answer task = some next) : Runs state next := by
  intro gone
  obtain ⟨disarmed, plain⟩ := runs gone
  rw [disarmed] at stepped
  exact ⟨disarmed, plain_taskStep plain stepped⟩

theorem Runs.nestCall {state : State} {task next : Task} {args : MountArgs} (runs : Runs state task)
    (nested : nestCall args task = some next) : Runs state next := by
  intro gone
  exact ⟨(runs gone).1, plain_nestCall (runs gone).2 nested⟩

theorem tracedStep_system {state : State} {self : Nat} {traced next : Traced} {buf : Int32}
    (runs : Runs state traced.task) (found : state.tasks[self]? = some traced.task)
    (stepped : tracedStep state.armed traced buf = some next) : Runs state next.task ∧
    ∃ action, step state action = some { state with tasks := state.tasks.set self next.task } := by
  have moves (move : Task → Option Task) (task : Task) (moved : move traced.task = some task) :
      state.moveTask self move = some { state with tasks := state.tasks.set self task } := by
    rw [State.moveTask, found, Option.bind_some, moved]
    rfl
  simp only [tracedStep] at stepped
  split at stepped
  · simp at stepped
  · split at stepped
    · simp at stepped
    · obtain ⟨task, moved, rfl⟩ := Option.map_eq_some_iff.mp stepped
      exact ⟨runs.nestCall moved, .nest self _, moves _ _ moved⟩
    · obtain ⟨task, moved, rfl⟩ := Option.map_eq_some_iff.mp stepped
      exact ⟨runs.taskStep moved, .run self _, moves _ _ ((runs.runTask _).trans moved)⟩
  · obtain ⟨task, moved, rfl⟩ := Option.map_eq_some_iff.mp stepped
    exact ⟨runs.taskStep moved, .run self buf, moves _ _ ((runs.runTask _).trans moved)⟩

theorem traced_run_system {state : State} {self : Nat} {traced final : Traced} {bufs : List Int32}
    (runs : Runs state traced.task) (found : state.tasks[self]? = some traced.task)
    (ran : run (tracedStep state.armed) traced bufs = some final) :
    ∃ actions, run step state actions =
      some { state with tasks := state.tasks.set self final.task } := by
  induction bufs generalizing state traced with
  | nil =>
      obtain rfl := Option.some.inj ran
      obtain ⟨bound, here⟩ := List.getElem?_eq_some_iff.mp found
      refine ⟨[], ?_⟩
      rw [← here, List.set_getElem_self]
      rfl
  | cons buf rest ih =>
      obtain ⟨next, stepped, remaining⟩ := run_cons_some ran
      obtain ⟨later, action, moved⟩ := tracedStep_system runs found stepped
      obtain ⟨actions, finished⟩ :=
        @ih { state with tasks := state.tasks.set self next.task } next later
          (Numbered.set_self found) remaining
      refine ⟨action :: actions, ?_⟩
      rw [run_cons, moved, Option.bind_some, finished, List.set_set]

def transcript (armed : Bool) : Calls → List Event
  | .none => []
  | .call args nested ret rest =>
      (if armed then [.hooked args] else []) ++ .original args :: transcript armed nested ++
        .originalReturned args ret :: (if armed then [.returned args ret] else []) ++
          transcript armed rest

theorem transcript_original (calls : Calls) :
    (transcript true calls).filter Event.ofOriginal = transcript false calls := by
  induction calls with
  | none => rfl
  | call args nested ret rest nestedIH restIH =>
      simp [transcript, Event.ofOriginal, List.filter_cons, nestedIH, restIH]

def Leading (armed : Bool) (start final : Traced) : Prop :=
  ∃ steps, Leads (tracedStep armed) (· ≠ 0) steps start final

section Steps

variable {armed : Bool} {start middle final : Traced}

theorem Leading.one (stepped : ∀ buf, buf ≠ 0 → tracedStep armed start buf = some final) :
    Leading armed start final := ⟨1, .one stepped⟩

theorem Leading.refl (state : Traced) : Leading armed state state := by
  refine ⟨0, fun bufs length _ => ?_⟩
  rw [List.length_eq_zero_iff.mp length]
  rfl

theorem Leading.trans (early : Leading armed start middle) (late : Leading armed middle final) :
    Leading armed start final := by
  obtain ⟨first, early⟩ := early
  obtain ⟨second, late⟩ := late
  exact ⟨first + second, early.trans late⟩

end Steps

section Frames

variable {armed : Bool} {parent : Parent} {args : MountArgs} {below : List Frame}
  {plans : List Plan} {log : List Event}

theorem kmalloc_given : Leading armed ⟨.goto (.ftracePathMount args .kmalloc) below, plans, log⟩
    ⟨.goto (.ftracePathMount args .dPath) below, plans, log⟩ := by
  refine .one fun buf nonzero => ?_
  simp [tracedStep, Task.goto, taskStep, ftracePathMount, nonzero, Frame.events]

theorem called_back : Leading true ⟨.goto (.pathMount parent args .entry) below, plans, log⟩
    ⟨.goto (.pathMount parent args (.resume (ftraceCallbackHandler parent))) below, plans, log⟩ := by
  have calls : Leading true ⟨.goto (.pathMount parent args .entry) below, plans, log⟩
      ⟨.goto (.pathMount parent args .callback) below, plans, log⟩ := by
    refine .one fun _ _ => ?_
    simp [tracedStep, Task.goto, taskStep, pathMount, Frame.events]
  refine calls.trans (.one fun _ _ => ?_)
  simp [tracedStep, Task.goto, taskStep, pathMount, Frame.events]

theorem redirected : Leading true ⟨.goto (.pathMount .outside args .entry) below, plans, log⟩
    ⟨.goto (.ftracePathMount args .kmalloc) below, plans, log ++ [.hooked args]⟩ :=
  called_back.trans (.one fun _ _ => rfl)

theorem let_through : Leading true ⟨.goto (.pathMount .thisModule args .entry) below, plans, log⟩
    ⟨.goto (.pathMount .thisModule args .body) below, plans, log ++ [.original args]⟩ :=
  called_back.trans (.one fun _ _ => rfl)

theorem passed_on {ret : Int32} :
    Leading armed ⟨.returnTo ret (.ftracePathMount args .waiting :: below), plans, log⟩
      ⟨.returnTo ret below, plans, log ++ [.returned args ret]⟩ := by
  refine .trans (.one fun _ _ => rfl) ?_
  refine .trans (.one fun _ _ => rfl) (.one fun _ _ => ?_)
  simp [tracedStep, Task.goto, taskStep, ftracePathMount, Frame.events]

theorem body_returns {ret : Int32} :
    Leading armed ⟨.goto (.pathMount parent args .body) below, ⟨.none, ret⟩ :: plans, log⟩
      ⟨.returnTo ret below, plans, log ++ [.originalReturned args ret]⟩ :=
  .one fun _ _ => rfl

def Completes (armed : Bool) (calls : Calls) : Prop :=
  ∀ parent outer below own plans log,
    Leading armed ⟨.goto (.pathMount parent outer .body) below, ⟨calls, own⟩ :: plans, log⟩
      ⟨.goto (.pathMount parent outer .body) below, ⟨.none, own⟩ :: plans,
        log ++ transcript armed calls⟩

theorem call_returns {nested : Calls} {ret : Int32} (completes : Completes armed nested) :
    Leading armed ⟨.goto (.pathMount .outside args .entry) below, ⟨nested, ret⟩ :: plans, log⟩
      ⟨.returnTo ret below, plans, log ++ transcript armed (.call args nested ret .none)⟩ := by
  cases armed with
  | false =>
      have started : Leading false
          ⟨.goto (.pathMount .outside args .entry) below, ⟨nested, ret⟩ :: plans, log⟩
          ⟨.goto (.pathMount .outside args .body) below, ⟨nested, ret⟩ :: plans,
            log ++ [.original args]⟩ := .one fun _ _ => rfl
      have ran := (started.trans (completes _ _ _ _ _ _)).trans body_returns
      simpa [transcript] using ran
  | true =>
      have handed : Leading true
          ⟨.goto (.ftracePathMount args .dPath) below, ⟨nested, ret⟩ :: plans, log ++ [.hooked args]⟩
          ⟨.goto (.pathMount .thisModule args .entry) (.ftracePathMount args .waiting :: below),
            ⟨nested, ret⟩ :: plans, log ++ [.hooked args]⟩ := by
        refine .trans (.one fun _ _ => rfl) (.one fun _ _ => ?_)
        simp [tracedStep, Task.goto, taskStep, ftracePathMount, Frame.events]
      have started := ((redirected.trans kmalloc_given).trans handed).trans let_through
      have ran := ((started.trans (completes _ _ _ _ _ _)).trans body_returns).trans passed_on
      simpa [transcript] using ran

theorem calls_complete (calls : Calls) : Completes armed calls := by
  induction calls with
  | none =>
      intro parent outer below own plans log
      rw [transcript, List.append_nil]
      exact .refl _
  | call args nested ret rest nestedIH restIH =>
      intro parent outer below own plans log
      have nests : Leading armed
          ⟨.goto (.pathMount parent outer .body) below, ⟨.call args nested ret rest, own⟩ :: plans, log⟩
          ⟨.goto (.pathMount .outside args .entry) (.pathMount parent outer .body :: below),
            ⟨nested, ret⟩ :: ⟨rest, own⟩ :: plans, log⟩ := .one fun _ _ => rfl
      have back := (nests.trans (call_returns nestedIH)).trans (restIH parent outer below own plans _)
      simpa [transcript] using back

end Frames

theorem system_returns {state : State} (disarmed : state.module = .exitReturned → state.armed = false)
    (args : MountArgs) (nested : Calls) (ret : Int32) :
    ∃ actions, run step state (.mount args :: actions) =
      some { state with tasks := state.tasks ++ [⟨[], some ret⟩] } := by
  obtain ⟨steps, leads⟩ :=
    @call_returns state.armed args [] [] [] nested ret (calls_complete nested)
  have ran := leads (List.replicate steps 1) (by simp) fun buf member => by
    rw [List.eq_of_mem_replicate member]
    decide
  obtain ⟨actions, finished⟩ := @traced_run_system
    { state with tasks := state.tasks ++ [.goto (.pathMount .outside args .entry) []] }
    state.tasks.length _ _ _ (fun gone => ⟨disarmed gone, plain_goto ⟨rfl, rfl⟩ (by simp)⟩) (by simp) ran
  refine ⟨actions, ?_⟩
  rw [run_cons, step, Option.bind_some, finished]
  simp [Task.returnTo]

/-- Every run of a call from outside ends, whatever it causes: the hook is run once around the
original for it and for each call below it, with the same arguments, and each returns what the
original returned.  Without the hook the originals and their results are the same.  The system has
such a run from every state in which the entry does not lead into a module that is gone. -/
theorem ftrace_hook_transparent (args : MountArgs) (nested : Calls) (ret : Int32) :
    (∃ steps, ∀ bufs : List Int32, bufs.length = steps → (∀ buf ∈ bufs, buf ≠ 0) →
      run (tracedStep true) ⟨.goto (.pathMount .outside args .entry) [], [⟨nested, ret⟩], []⟩ bufs =
        some ⟨⟨[], some ret⟩, [], transcript true (.call args nested ret .none)⟩) ∧
    (∃ steps, ∀ bufs : List Int32, bufs.length = steps → (∀ buf ∈ bufs, buf ≠ 0) →
      run (tracedStep false) ⟨.goto (.pathMount .outside args .entry) [], [⟨nested, ret⟩], []⟩ bufs =
        some ⟨⟨[], some ret⟩, [],
          (transcript true (.call args nested ret .none)).filter Event.ofOriginal⟩) ∧
    ∀ state : State, (state.module = .exitReturned → state.armed = false) →
      ∃ actions, run step state (.mount args :: actions) =
      some { state with tasks := state.tasks ++ [⟨[], some ret⟩] } := by
  have both (armed : Bool) := @call_returns armed args [] [] [] nested ret (calls_complete nested)
  rw [transcript_original]
  exact ⟨both true, both false, fun state disarmed => system_returns disarmed args nested ret⟩

end LearnK.Ftrace
