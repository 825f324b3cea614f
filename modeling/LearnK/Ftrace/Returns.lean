import LearnK.Ftrace.Unload

/-! A call of `path_mount` returns and gives back the buffer of its path, whatever is loaded, unloaded or
refused meanwhile: the hook calls the traced function again, and is not entered again for that. -/

namespace LearnK.Ftrace

open StepMachine

def Action.runs (self : Nat) : Action → Bool
  | .run other _ => decide (other = self)
  | _ => false

def Action.nests (self : Nat) : Action → Bool
  | .nest other _ => decide (other = self)
  | _ => false

def ownSteps (self : Nat) (actions : List Action) : Nat := actions.countP (Action.runs self)

def outsideCalls (self : Nat) (actions : List Action) : Nat := 1 + actions.countP (Action.nests self)

/-- The most statements that a frame and those it will push have to go; the callback sends a call
from outside into the hook, and the hook's own call past it. -/
def Frame.left : Frame → Nat
  | .pathMount .outside _ .entry => 13
  | .pathMount .outside _ .callback => 12
  | .pathMount .outside _ (.resume .function) => 11
  | .pathMount .thisModule _ .entry => 4
  | .pathMount .thisModule _ .callback => 3
  | .pathMount _ _ (.resume _) => 2
  | .pathMount _ _ .body => 1
  | .ftracePathMount _ .kmalloc => 10
  | .ftracePathMount _ .dPath => 9
  | .ftracePathMount _ .callOrig => 8
  | .ftracePathMount _ .waiting => 3
  | .ftracePathMount _ (.testRet _) => 3
  | .ftracePathMount _ (.kfree _) => 2
  | .ftracePathMount _ (.leave _) => 1

def Frame.deep : Frame → Nat
  | .pathMount .outside _ _ => 2
  | .pathMount .thisModule _ _ => 1
  | .ftracePathMount _ .kmalloc | .ftracePathMount _ .dPath | .ftracePathMount _ .callOrig => 2
  | .ftracePathMount _ _ => 1

def Frame.Formed : Frame → Prop
  | .pathMount parent _ (.resume ip) => ip = ftraceCallbackHandler parent
  | _ => True

def Task.left (task : Task) : Nat := (task.stack.map Frame.left).sum

def Task.deep (task : Task) : Nat := (task.stack.map Frame.deep).sum

def Waits : List Frame → Prop
  | .ftracePathMount _ .waiting :: _ => True
  | _ => False

structure Task.Formed (task : Task) : Prop where
  frames : ∀ frame ∈ task.stack, frame.Formed
  moves : ¬Waits task.stack

section Task

variable {task next : Task} {frame : Frame} {below : List Frame} {ret answer : Int32} {armed : Bool}

theorem returnTo_cases (ret : Int32) (below : List Frame) :
    (∃ args rest, below = .ftracePathMount args .waiting :: rest ∧
      Task.returnTo ret below = .goto (.ftracePathMount args (.testRet ret)) rest) ∨
    ¬Waits below ∧ (Task.returnTo ret below).stack = below := by
  unfold Task.returnTo
  split
  · exact .inr ⟨id, rfl⟩
  · exact .inl ⟨_, _, rfl, rfl⟩
  · rename_i notNil notWaiting
    refine .inr ⟨fun waits => ?_, rfl⟩
    unfold Waits at waits
    split at waits
    · rename_i args rest
      exact notWaiting args rest rfl
    · exact waits

theorem left_pos (occupied : task.stack ≠ []) : 0 < task.left := by
  obtain ⟨frame, below, stack⟩ := List.exists_cons_of_ne_nil occupied
  have positive : 0 < frame.left := by
    cases frame with
    | pathMount parent args pc =>
        cases pc with
        | resume ip => cases parent <;> cases ip <;> simp [Frame.left]
        | entry | callback | body => cases parent <;> simp [Frame.left]
    | ftracePathMount args pc => cases pc <;> simp [Frame.left]
  rw [Task.left, stack, List.map_cons, List.sum_cons]
  omega

end Task

theorem moduleStep_tasks {ret : Int} {state next : State} (stepped : moduleStep ret state = some next) :
    next.tasks = state.tasks := by
  unfold moduleStep at stepped
  split at stepped <;> first
    | (split at stepped <;> cases stepped <;> rfl)
    | (cases stepped <;> rfl)

theorem ownSteps_append (self : Nat) (actions : List Action) (action : Action) :
    ownSteps self (actions ++ [action]) = ownSteps self actions + (action.runs self).toNat := by
  rw [ownSteps, List.countP_append, List.countP_singleton, ownSteps]
  cases action.runs self <;> rfl

theorem outsideCalls_append (self : Nat) (actions : List Action) (action : Action) :
    outsideCalls self (actions ++ [action]) = outsideCalls self actions + (action.nests self).toNat := by
  rw [outsideCalls, List.countP_append, List.countP_singleton, outsideCalls]
  cases action.nests self <;> rfl

structure Task.Within (task : Task) (steps calls : Nat) : Prop where
  formed : task.Formed
  steps : steps + task.left ≤ 13 * calls
  frames : task.deep ≤ 2 * calls

structure Bounded (done : List Action) (state : State) : Prop where
  within : ∀ (self : Nat) (task : Task), state.tasks[self]? = some task →
    task.Within (ownSteps self done) (outsideCalls self done)
  fresh : ∀ self, state.tasks.length ≤ self → ownSteps self done = 0 ∧ outsideCalls self done = 1

section Run

variable {done : List Action} {state next : State} {action : Action}

theorem Bounded.others (bounded : Bounded done state) {self : Nat} {moved : Task}
    (other : ∀ index, index ≠ self → action.runs index = false ∧ action.nests index = false)
    (started : self < state.tasks.length)
    (here : moved.Within (ownSteps self (done ++ [action])) (outsideCalls self (done ++ [action]))) :
    Bounded (done ++ [action]) { state with tasks := state.tasks.set self moved } := by
  refine ⟨fun index task found => ?_, fun index beyond => ?_⟩
  · rcases Numbered.set_cases found with ⟨rfl, rfl⟩ | ⟨apart, found⟩
    · exact here
    · obtain ⟨noRun, noNest⟩ := other index apart
      rw [ownSteps_append, outsideCalls_append, noRun, noNest]
      exact bounded.within index task found
  · rw [List.length_set] at beyond
    obtain ⟨noRun, noNest⟩ := other index (by omega)
    rw [ownSteps_append, outsideCalls_append, noRun, noNest]
    exact bounded.fresh index beyond

end Run

def hookedMount : List Action :=
  [.module 0, .module 0, .module 0, .mount ⟨0, 0, 0, 0, 0⟩] ++ List.replicate 13 (.run 0 1)

def Frame.holds : Frame → Bool
  | .ftracePathMount _ .dPath | .ftracePathMount _ .callOrig | .ftracePathMount _ .waiting => true
  | .ftracePathMount _ (.testRet _) | .ftracePathMount _ (.kfree _) => true
  | _ => false

def Task.buffers (task : Task) : Nat := task.stack.countP Frame.holds

def State.buffers (state : State) : Nat := (state.tasks.map Task.buffers).sum

def Task.allocates (answer : Int32) (task : Task) : Bool :=
  match task.stack with
  | .ftracePathMount _ .kmalloc :: _ => answer ≠ 0
  | _ => false

def Task.frees (task : Task) : Bool :=
  match task.stack with
  | .ftracePathMount _ (.kfree _) :: _ => true
  | _ => false

def Action.buffers (state : State) : Action → Nat × Nat
  | .run self answer =>
      match state.tasks[self]? with
      | some task => ((task.allocates answer).toNat, task.frees.toNat)
      | none => (0, 0)
  | _ => (0, 0)

def bufferEvents (state : State) : List Action → Nat × Nat
  | [] => (0, 0)
  | action :: rest =>
      match step state action with
      | some next =>
          let (allocated, freed) := bufferEvents next rest
          ((action.buffers state).1 + allocated, (action.buffers state).2 + freed)
      | none => action.buffers state

section Buffers

variable {task next : Task} {frame : Frame} {below : List Frame} {ret answer : Int32} {armed : Bool}

theorem buffers_goto : (Task.goto frame below).buffers =
    below.countP Frame.holds + frame.holds.toNat := by
  rw [Task.buffers, Task.goto, List.countP_cons]
  cases frame.holds <;> rfl

theorem buffers_returnTo : (Task.returnTo ret below).buffers = below.countP Frame.holds := by
  rcases returnTo_cases ret below with ⟨args, rest, rfl, same⟩ | ⟨-, same⟩
  · rw [same, buffers_goto, List.countP_cons]
    rfl
  · rw [Task.buffers, same]

theorem pathMount_buffers {parent : Parent} {args : MountArgs} {pc : PathPc} :
    (pathMount armed ret parent args below pc).buffers = below.countP Frame.holds := by
  cases pc with
  | entry =>
      rw [pathMount, buffers_goto]
      rfl
  | callback =>
      rw [pathMount, buffers_goto]
      rfl
  | resume ip =>
      cases ip <;>
      · rw [pathMount, buffers_goto]
        rfl
  | body => rw [pathMount, buffers_returnTo]

theorem ftracePathMount_buffers {args : MountArgs} {pc : HookPc}
    (moved : ftracePathMount answer args below pc = some next)
    (stack : task.stack = .ftracePathMount args pc :: below) :
    next.buffers + task.frees.toNat = task.buffers + (task.allocates answer).toNat := by
  have before : task.buffers = below.countP Frame.holds +
      (Frame.ftracePathMount args pc).holds.toNat := by
    rw [Task.buffers, stack, List.countP_cons]
    cases (Frame.ftracePathMount args pc).holds <;> rfl
  rw [before, Task.frees, Task.allocates, stack]
  cases pc with
  | kmalloc =>
      rw [ftracePathMount] at moved
      split at moved
      · rename_i failed
        cases moved
        rw [buffers_goto]
        simp [failed, Frame.holds]
      · rename_i given
        cases moved
        rw [buffers_goto]
        simp [given, Frame.holds]
  | callOrig =>
      cases moved
      rw [buffers_goto, List.countP_cons]
      rfl
  | waiting => simp [ftracePathMount] at moved
  | dPath | testRet | kfree =>
      cases moved
      rw [buffers_goto]
      rfl
  | leave code =>
      cases moved
      rw [buffers_returnTo]
      rfl

theorem taskStep_buffers (stepped : taskStep armed answer task = some next) :
    next.buffers + task.frees.toNat = task.buffers + (task.allocates answer).toNat := by
  unfold taskStep at stepped
  split at stepped
  · simp at stepped
  · rename_i parent args pc below stack
    cases stepped
    have before : task.buffers = below.countP Frame.holds := by
      rw [Task.buffers, stack]
      exact List.countP_cons_of_neg Bool.false_ne_true
    rw [pathMount_buffers, before, Task.frees, Task.allocates, stack]
  · rename_i args pc below stack
    exact ftracePathMount_buffers stepped stack

theorem nestCall_buffers {args : MountArgs} (nested : nestCall args task = some next) :
    next.buffers = task.buffers := by
  unfold nestCall at nested
  split at nested
  · rename_i stack
    cases nested
    rw [buffers_goto, Task.buffers, stack]
    rfl
  · simp at nested

theorem step_buffers {state next : State} {action : Action} (stepped : step state action = some next) :
    next.buffers + (action.buffers state).2 = state.buffers + (action.buffers state).1 := by
  cases action with
  | mount args =>
      cases stepped
      simp only [State.buffers, List.map_append, List.sum_append]
      rfl
  | nest self args =>
      obtain ⟨task, after, found, nested, rfl⟩ := moveTask_some stepped
      have total := Numbered.sum_set Task.buffers found after
      have same := nestCall_buffers nested
      simp only [State.buffers, Action.buffers]
      omega
  | run self answer =>
      obtain ⟨task, after, found, moved, rfl⟩ := moveTask_some stepped
      have total := Numbered.sum_set Task.buffers found after
      have changed := taskStep_buffers (runTask_some moved)
      simp only [State.buffers, Action.buffers, found]
      omega
  | module ret =>
      simp only [State.buffers, moduleStep_tasks stepped]
      rfl

theorem buffers_run {state final : State} {actions : List Action}
    (ran : run step state actions = some final) :
    final.buffers + (bufferEvents state actions).2 = state.buffers + (bufferEvents state actions).1 := by
  induction actions generalizing state with
  | nil =>
      obtain rfl := Option.some.inj ran
      rfl
  | cons action rest ih =>
      obtain ⟨next, stepped, remaining⟩ := run_cons_some ran
      have here := step_buffers stepped
      have later := ih remaining
      rw [bufferEvents, stepped]
      simp only
      omega

theorem buffers_outside {state : State} (outside : state.noFrame Frame.inHook = true) :
    state.buffers = 0 := by
  rw [noFrame_iff] at outside
  rw [State.buffers, List.sum_eq_zero_iff_forall_eq_nat]
  intro count member
  obtain ⟨task, inside, rfl⟩ := List.mem_map.mp member
  rw [Task.buffers, List.countP_eq_zero]
  intro frame present
  have plain := outside task inside frame present
  cases frame with
  | pathMount parent args pc => exact Bool.false_ne_true
  | ftracePathMount args pc => simp [Frame.inHook] at plain

end Buffers

/-- In every run the buffers that `ftrace_path_mount` was given are those it has freed and those of
the calls that are past its `kmalloc` and not past its `kfree`; once no call is in it, it has freed
them all. -/
theorem ftrace_frees_buffers (actions : List Action) (final : State)
    (ran : run step initial actions = some final) :
    (bufferEvents initial actions).1 = (bufferEvents initial actions).2 + final.buffers ∧
      (final.noFrame Frame.inHook = true →
        (bufferEvents initial actions).1 = (bufferEvents initial actions).2) := by
  have total := buffers_run ran
  have none : initial.buffers = 0 := rfl
  refine ⟨by omega, fun outside => ?_⟩
  have empty := buffers_outside outside
  omega

theorem ftrace_frees_buffers_hooked : ∃ final, run step initial hookedMount = some final ∧
    (bufferEvents initial hookedMount).2 = 1 := by
  obtain ⟨final, ran⟩ := Option.isSome_iff_exists.mp (by decide :
    (run step initial hookedMount).isSome = true)
  have outside : (run step initial hookedMount).map (fun final => final.noFrame Frame.inHook) =
      some true := by
    decide
  rw [ran, Option.map_some, Option.some.injEq] at outside
  exact ⟨final, ran, (ftrace_frees_buffers hookedMount final ran).2 outside ▸ by decide⟩

end LearnK.Ftrace
