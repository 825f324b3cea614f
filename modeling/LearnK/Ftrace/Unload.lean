import LearnK.Ftrace.Core

/-! What `__ftrace_exit` leaves behind.  `unregister_ftrace_function` waits for the callbacks, but
nothing waits for the calls they have redirected. -/

namespace LearnK.Ftrace

open StepMachine

/-- Once `__ftrace_exit` has returned, `ftrace_path_mount` is on no task's stack. -/
def UnloadsSafely (state : State) : Prop :=
  state.module = .exitReturned → state.noFrame Frame.inHook = true

def UnregistersInUse (state : State) : Action → Prop
  | .module ret => state.module = .unregisterFunction ∧ ret ≠ 0 ∨
      state.module = .synchronize ∧ state.noFrame Frame.inHook = false
  | _ => False

instance (state : State) : ∀ action, Decidable (UnregistersInUse state action)
  | .module ret => inferInstanceAs (Decidable (state.module = .unregisterFunction ∧ ret ≠ 0 ∨
      state.module = .synchronize ∧ state.noFrame Frame.inHook = false))
  | .mount _ | .nest _ _ | .run _ _ => isFalse id

def ModulePc.disarmed : ModulePc → Bool
  | .synchronize | .removeFilter | .printUnloaded | .exitReturned => true
  | _ => false

def ModulePc.unregistered : ModulePc → Bool
  | .removeFilter | .printUnloaded | .exitReturned => true
  | _ => false

def Task.Plain (task : Task) : Prop :=
  ∀ frame ∈ task.stack, frame.inCallback = false ∧ frame.inHook = false

structure Teardown (state : State) : Prop where
  disarmed : state.module.disarmed = true → state.armed = false
  plain : state.module.unregistered = true → ∀ task ∈ state.tasks, task.Plain

theorem teardown_initial : Teardown initial :=
  ⟨by simp [initial, ModulePc.disarmed], by simp [initial, ModulePc.unregistered]⟩

theorem ModulePc.disarmed_of_unregistered {pc : ModulePc} (unregistered : pc.unregistered = true) :
    pc.disarmed = true := by
  cases pc <;> simp_all [ModulePc.disarmed, ModulePc.unregistered]

theorem noFrame_iff (state : State) (which : Frame → Bool) :
    state.noFrame which = true ↔
      ∀ task ∈ state.tasks, ∀ frame ∈ task.stack, which frame = false := by
  simp [State.noFrame]

section

variable {task next : Task}

theorem plain_goto {frame : Frame} {below : List Frame}
    (plain : frame.inCallback = false ∧ frame.inHook = false)
    (rest : ∀ frame ∈ below, frame.inCallback = false ∧ frame.inHook = false) :
    (Task.goto frame below).Plain := by
  intro other member
  rcases List.mem_cons.mp member with rfl | member
  · exact plain
  · exact rest other member

theorem plain_returnTo {ret : Int32} {below : List Frame}
    (rest : ∀ frame ∈ below, frame.inCallback = false ∧ frame.inHook = false) :
    (Task.returnTo ret below).Plain := by
  unfold Task.returnTo
  split
  · intro frame member
    simp at member
  · rename_i args below
    have hook := (rest (.ftracePathMount args .waiting) (by simp)).2
    simp [Frame.inHook] at hook
  · exact rest

theorem plain_taskStep {answer : Int32} (plain : task.Plain)
    (stepped : taskStep false answer task = some next) : next.Plain := by
  obtain ⟨stack, result⟩ := task
  cases stack with
  | nil => simp [taskStep] at stepped
  | cons frame below =>
      obtain ⟨outside, body⟩ := plain frame (by simp)
      have rest : ∀ frame ∈ below, frame.inCallback = false ∧ frame.inHook = false :=
        fun frame member => plain frame (by simp [member])
      cases frame with
      | ftracePathMount args pc => simp [Frame.inHook] at body
      | pathMount parent args pc =>
          cases pc with
          | entry =>
              cases stepped
              exact plain_goto ⟨rfl, rfl⟩ rest
          | body =>
              cases stepped
              exact plain_returnTo rest
          | callback | resume => simp [Frame.inCallback] at outside

theorem plain_nestCall {args : MountArgs} (plain : task.Plain)
    (nested : nestCall args task = some next) : next.Plain := by
  unfold nestCall at nested
  split at nested
  · rename_i stack
    cases nested
    refine plain_goto ⟨rfl, rfl⟩ ?_
    rw [← stack]
    exact plain
  · simp at nested

end

theorem moveTask_some {state next : State} {self : Nat} {move : Task → Option Task}
    (moved : state.moveTask self move = some next) :
    ∃ task after, state.tasks[self]? = some task ∧ move task = some after ∧
      next = { state with tasks := state.tasks.set self after } := by
  obtain ⟨task, found, mapped⟩ := Option.bind_eq_some_iff.mp moved
  obtain ⟨after, taken, rfl⟩ := Option.map_eq_some_iff.mp mapped
  exact ⟨task, after, found, taken, rfl⟩

theorem runTask_some {state : State} {answer : Int32} {task next : Task}
    (ran : state.runTask answer task = some next) : taskStep state.armed answer task = some next := by
  unfold State.runTask at ran
  split_ifs at ran
  exact ran

theorem runTask_loaded {state : State} (loaded : state.module ≠ .exitReturned) (answer : Int32)
    (task : Task) : state.runTask answer task = taskStep state.armed answer task :=
  if_neg fun gone => loaded gone.1

theorem Task.Plain.outside {task : Task} (plain : task.Plain) : task.inModule = false := by
  unfold Task.inModule
  split
  · rename_i stack
    have outside := (plain _ (by rw [stack]; exact List.mem_cons_self ..)).1
    simp [Frame.inCallback] at outside
  · rename_i stack
    have outside := (plain _ (by rw [stack]; exact List.mem_cons_self ..)).2
    simp [Frame.inHook] at outside
  · rfl

theorem runTask_plain {state : State} {task : Task} (plain : task.Plain) (answer : Int32) :
    state.runTask answer task = taskStep state.armed answer task :=
  if_neg fun gone => by simp [plain.outside] at gone

theorem teardown_moveTask {state next : State} {self : Nat} {move : Task → Option Task}
    (teardown : Teardown state) (moved : state.moveTask self move = some next)
    (keeps : state.armed = false → ∀ task after, task.Plain → move task = some after → after.Plain) :
    Teardown next := by
  obtain ⟨task, after, found, taken, rfl⟩ := moveTask_some moved
  refine ⟨teardown.disarmed, fun unregistered other member => ?_⟩
  have disarmed := teardown.disarmed (ModulePc.disarmed_of_unregistered unregistered)
  rcases List.mem_or_eq_of_mem_set member with member | rfl
  · exact teardown.plain unregistered other member
  · have before := teardown.plain unregistered task (List.mem_of_getElem? found)
    exact keeps disarmed task other before taken

theorem teardown_module {ret : Int} {state next : State} (teardown : Teardown state)
    (unused : ¬UnregistersInUse state (.module ret)) (stepped : moduleStep ret state = some next) :
    Teardown next := by
  have disarmed := teardown.disarmed
  have plain := teardown.plain
  unfold moduleStep at stepped
  cases pc : state.module with
  | resolveAddress | setFilter | registerFunction | initReturned =>
      simp only [pc] at stepped
      split_ifs at stepped <;> cases stepped <;>
        exact ⟨by simp [ModulePc.disarmed], by simp [ModulePc.unregistered]⟩
  | undoFilter =>
      simp only [pc] at stepped
      cases stepped
      exact ⟨by simp [ModulePc.disarmed], by simp [ModulePc.unregistered]⟩
  | unregisterFunction =>
      simp only [pc] at stepped
      split_ifs at stepped with failed
      · exact absurd (.inl ⟨pc, failed⟩) unused
      · cases stepped
        exact ⟨fun _ => rfl, by simp [ModulePc.unregistered]⟩
  | synchronize =>
      simp only [pc] at stepped
      split_ifs at stepped with waited
      cases stepped
      rw [pc] at disarmed
      refine ⟨fun _ => disarmed rfl, fun _ task member frame inside => ?_⟩
      have none : state.noFrame Frame.inHook = true := by
        cases used : state.noFrame Frame.inHook with
        | true => rfl
        | false => exact absurd (.inr ⟨pc, used⟩) unused
      exact ⟨(noFrame_iff state _).mp waited task member frame inside,
        (noFrame_iff state _).mp none task member frame inside⟩
  | removeFilter | printUnloaded =>
      simp only [pc] at stepped
      cases stepped
      rw [pc] at disarmed plain
      exact ⟨fun _ => disarmed rfl, fun _ => plain rfl⟩
  | exitReturned => simp [pc] at stepped

theorem teardown_step {state next : State} {action : Action} (teardown : Teardown state)
    (unused : ¬UnregistersInUse state action) (stepped : step state action = some next) :
    Teardown next := by
  cases action with
  | mount args =>
      cases stepped
      refine ⟨teardown.disarmed, fun unregistered task member => ?_⟩
      rcases List.mem_append.mp member with member | member
      · exact teardown.plain unregistered task member
      · rw [List.mem_singleton.mp member]
        exact plain_goto ⟨rfl, rfl⟩ (by simp)
  | nest self args =>
      exact teardown_moveTask teardown stepped fun _ _ _ plain nested => plain_nestCall plain nested
  | run self answer =>
      refine teardown_moveTask teardown stepped fun disarmed _ _ plain moved => ?_
      have moves := runTask_some moved
      rw [disarmed] at moves
      exact plain_taskStep plain moves
  | module ret => exact teardown_module teardown unused stepped

theorem Teardown.safe {state : State} (teardown : Teardown state) : UnloadsSafely state := by
  intro returned
  rw [noFrame_iff]
  intro task member frame inside
  exact (teardown.plain (by rw [returned]; rfl) task member frame inside).2

def ModulePc.loaded : ModulePc → Bool
  | .initReturned code => decide (code = 0)
  | .unregisterFunction => true
  | _ => false

theorem armed_module {ret : Int} {state next : State}
    (armed : state.module.loaded = true → state.armed = true)
    (stepped : moduleStep ret state = some next) :
    next.module.loaded = true → next.armed = true := by
  unfold moduleStep at stepped
  cases pc : state.module with
  | resolveAddress | setFilter =>
      simp only [pc] at stepped
      split_ifs at stepped <;> cases stepped <;> simp [ModulePc.loaded, einval]
  | registerFunction | unregisterFunction | synchronize =>
      simp only [pc] at stepped
      split_ifs at stepped <;> cases stepped <;> simp [ModulePc.loaded]
  | undoFilter | removeFilter | printUnloaded =>
      simp only [pc] at stepped
      cases stepped
      simp [ModulePc.loaded, einval]
  | initReturned code =>
      simp only [pc] at stepped
      split_ifs at stepped with returned
      cases stepped
      intro _
      exact armed (by rw [pc, returned]; rfl)
  | exitReturned => simp [pc] at stepped

theorem armed_step {state next : State} {action : Action}
    (armed : state.module.loaded = true → state.armed = true)
    (stepped : step state action = some next) :
    next.module.loaded = true → next.armed = true := by
  cases action with
  | mount args =>
      cases stepped
      exact armed
  | nest self args =>
      obtain ⟨task, after, -, -, rfl⟩ := moveTask_some stepped
      exact armed
  | run self answer =>
      obtain ⟨task, after, -, -, rfl⟩ := moveTask_some stepped
      exact armed
  | module ret => exact armed_module armed stepped

theorem armed_reachable {actions : List Action} {state : State}
    (reached : run step initial actions = some state) :
    state.module.loaded = true → state.armed = true := by
  have kept : ∀ (state : State) action next, (state.module.loaded = true → state.armed = true) →
      step state action = some next → next.module.loaded = true → next.armed = true :=
    fun _ _ _ armed stepped => armed_step armed stepped
  exact run_invariant kept (by simp [initial, ModulePc.loaded]) reached

theorem exit_runs {state : State} (pc : state.module = .removeFilter) :
    run step state [.module 0, .module 0] = some { state with module := .exitReturned } := by
  simp [run_cons, step, moduleStep, pc]

theorem moveTask_last (state : State) (task : Task) (move : Task → Option Task) :
    ({ state with tasks := state.tasks ++ [task] } : State).moveTask state.tasks.length move =
      (move task).map fun next => { state with tasks := state.tasks ++ [next] } := by
  simp [State.moveTask, List.set_append_right]

theorem mount_redirected {state : State} (loaded : state.module ≠ .exitReturned)
    (armed : state.armed = true) (args : MountArgs) :
    run step state (.mount args :: List.replicate 3 (.run state.tasks.length 0)) =
      some { state with
        tasks := state.tasks ++ [.goto (.ftracePathMount args .kmalloc) []] } := by
  have runs (before after : Task) (moves : taskStep true 0 before = some after) :
      step { state with tasks := state.tasks ++ [before] } (.run state.tasks.length 0) =
        some { state with tasks := state.tasks ++ [after] } := by
    rw [← armed] at moves
    have runs : State.runTask { state with tasks := state.tasks ++ [before] } 0 before = some after :=
      (runTask_loaded loaded 0 before).trans moves
    rw [step, moveTask_last, runs]
    rfl
  rw [run_cons, step, Option.bind_some]
  simp only [List.replicate, run_cons, run_nil]
  rw [runs _ (.goto (.pathMount .outside args .callback) []) rfl, Option.bind_some,
    runs _ (.goto (.pathMount .outside args (.resume .function)) []) rfl, Option.bind_some,
    runs _ (.goto (.ftracePathMount args .kmalloc) []) rfl, Option.bind_some]

theorem not_safe_of_frame {state : State} (returned : state.module = .exitReturned)
    (used : state.noFrame Frame.inHook = false) : ¬UnloadsSafely state := by
  intro safe
  simp [safe returned] at used

def nfs : MountArgs := ⟨1, 2, 3, 0, 4⟩

theorem removeFilter_armed {state : State} (pc : state.module = .removeFilter)
    (armed : state.armed = true) :
    ∃ later final, run step state later = some final ∧ ¬UnloadsSafely final := by
  have redirected := mount_redirected (by simp [pc]) armed nfs
  let inside : State := { state with tasks := state.tasks ++ [.goto (.ftracePathMount nfs .kmalloc) []] }
  have exits : run step inside [.module 0, .module 0] = some { inside with module := .exitReturned } :=
    exit_runs pc
  refine ⟨.mount nfs :: List.replicate 3 (.run state.tasks.length 0) ++ [.module 0, .module 0],
    { inside with module := .exitReturned }, ?_, not_safe_of_frame rfl ?_⟩
  · rw [run_append, redirected]
    exact exits
  · simp [inside, State.noFrame, Task.goto, Frame.inHook]

/-- A run whose `unregister_ftrace_function` succeeds, with no task in `ftrace_path_mount` when it
returns, unloads safely; in any other the rest of the exit can leave a task there. -/
theorem ftraceExit_safe_when (actions : List Action) :
    (EachStep step (fun state action => ¬UnregistersInUse state action) initial actions →
      Always step UnloadsSafely initial actions) ∧
    ∀ state action next, run step initial actions = some state → UnregistersInUse state action →
      step state action = some next →
        ∃ later final, run step next later = some final ∧ ¬UnloadsSafely final := by
  constructor
  · intro unused
    exact always_eachStep (fun _ _ _ unused teardown stepped => teardown_step teardown unused stepped)
      (fun _ => Teardown.safe) teardown_initial unused
  · intro state action next reached inUse stepped
    cases action with
    | module ret =>
        rcases inUse with ⟨pc, failed⟩ | ⟨pc, used⟩
        · -- the hook stays on the entry, and the next mount runs into it
          have armed := armed_reachable reached (by rw [pc]; rfl)
          simp only [step, moduleStep, pc, if_pos failed] at stepped
          cases stepped
          exact removeFilter_armed rfl armed
        · simp only [step, moduleStep, pc] at stepped
          split_ifs at stepped
          cases stepped
          -- no task moves while the exit runs to its end
          exact ⟨_, _, exit_runs rfl, not_safe_of_frame rfl used⟩
    | mount | nest | run => exact absurd inUse not_false

def load : List Action := List.replicate 3 (.module 0)

def mountThenUnload : List Action :=
  load ++ .mount nfs :: List.replicate 13 (.run 0 1) ++ List.replicate 5 (.module 0)

theorem ftraceExit_safe_when_idle : Always step UnloadsSafely initial mountThenUnload ∧
    run step initial mountThenUnload = some ⟨[⟨[], some 1⟩], false, .exitReturned⟩ :=
  ⟨(ftraceExit_safe_when mountThenUnload).1 (by decide), by decide⟩

def unloadDuringMount : List Action :=
  load ++ .mount nfs :: List.replicate 9 (.run 0 1) ++ List.replicate 5 (.module 0)

theorem ftraceExit_leaves_redirected : run step initial unloadDuringMount =
    some ⟨[.goto (.pathMount .thisModule nfs .body) [.ftracePathMount nfs .waiting]], false,
      .exitReturned⟩ ∧
    ¬Always step UnloadsSafely initial unloadDuringMount := by
  have ran : run step initial unloadDuringMount =
      some ⟨[.goto (.pathMount .thisModule nfs .body) [.ftracePathMount nfs .waiting]], false,
        .exitReturned⟩ := by decide
  refine ⟨ran, fun always => ?_⟩
  have safe := always.last ran rfl
  simp [State.noFrame, Task.goto, Frame.inHook] at safe

end LearnK.Ftrace
