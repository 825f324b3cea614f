import Mathlib.Data.List.Basic
import Mathlib.Data.List.Induction

/-! Partial step functions, their runs over a list of actions, and the rules that
carry an invariant along one run and a relation along two. -/

namespace StepMachine

variable {State Action : Type*}

/-- A run stops with `none` at the first action that the current state refuses. -/
def run (step : State → Action → Option State) : State → List Action → Option State
  | state, [] => some state
  | state, action :: rest => (step state action).bind fun next => run step next rest

variable {step : State → Action → Option State}

@[simp] theorem run_nil (state : State) : run step state [] = some state := rfl

theorem run_cons (state : State) (action : Action) (rest : List Action) :
    run step state (action :: rest) = (step state action).bind fun next => run step next rest :=
  rfl

theorem run_cons_some {state final : State} {action : Action} {rest : List Action}
    (ran : run step state (action :: rest) = some final) :
    ∃ next, step state action = some next ∧ run step next rest = some final := by
  rw [run_cons] at ran
  exact Option.bind_eq_some_iff.mp ran

theorem run_append (state : State) (first second : List Action) :
    run step state (first ++ second) = (run step state first).bind fun middle =>
      run step middle second := by
  induction first generalizing state with
  | nil => rfl
  | cons action rest ih =>
      rw [List.cons_append, run_cons, run_cons, Option.bind_assoc]
      exact Option.bind_congr fun next _ => ih next

def observed {Seen : Type*} (step : State → Action → Option State) (shows : State → Action → List Seen) :
    State → List Action → List Seen
  | _, [] => []
  | state, action :: rest =>
      shows state action ++ (step state action).elim [] fun next => observed step shows next rest

theorem observed_snoc {Seen : Type*} {shows : State → Action → List Seen} {start state : State}
    {actions : List Action} (ran : run step start actions = some state) (action : Action) :
    observed step shows start (actions ++ [action]) =
      observed step shows start actions ++ shows state action := by
  induction actions generalizing start with
  | nil =>
      obtain rfl := Option.some.inj ran
      cases stepped : step start action <;> simp [observed, stepped]
  | cons first rest ih =>
      obtain ⟨next, stepped, remaining⟩ := run_cons_some ran
      rw [List.cons_append, observed, observed, stepped, Option.elim_some, Option.elim_some,
        ih remaining, List.append_assoc]

theorem run_history {Invariant : List Action → State → Prop} {start final : State}
    {actions : List Action}
    (kept : ∀ before state action next, run step start before = some state → Invariant before state →
      step state action = some next → Invariant (before ++ [action]) next)
    (initial : Invariant [] start) (ran : run step start actions = some final) :
    Invariant actions final := by
  induction actions using List.reverseRecOn generalizing final with
  | nil =>
      obtain rfl := Option.some.inj ran
      exact initial
  | append_singleton before action ih =>
      rw [run_append] at ran
      obtain ⟨state, early, late⟩ := Option.bind_eq_some_iff.mp ran
      obtain ⟨next, stepped, done⟩ := run_cons_some late
      obtain rfl := Option.some.inj done
      exact kept before state action next early (ih early) stepped

/-- The property holds in every state a run passes through, its start included. -/
def Always (step : State → Action → Option State) (Property : State → Prop) :
    State → List Action → Prop
  | state, [] => Property state
  | state, action :: rest => Property state ∧
      ∀ next, step state action = some next → Always step Property next rest

def EachStep (step : State → Action → Option State) (Condition : State → Action → Prop) :
    State → List Action → Prop
  | _, [] => True
  | state, action :: rest => ∀ next, step state action = some next →
      Condition state action ∧ EachStep step Condition next rest

def decideEachStep {Condition : State → Action → Prop}
    [∀ state action, Decidable (Condition state action)] :
    ∀ (state : State) (actions : List Action), Decidable (EachStep step Condition state actions)
  | _, [] => isTrue trivial
  | state, action :: rest =>
      match stepped : step state action with
      | none => isTrue fun next other => by simp [stepped] at other
      | some next =>
          have : Decidable (EachStep step Condition next rest) := decideEachStep next rest
          decidable_of_iff (Condition state action ∧ EachStep step Condition next rest)
            ⟨fun holds other same => by rwa [← Option.some.inj (stepped.symm.trans same)],
              fun each => each next stepped⟩

instance {Condition : State → Action → Prop} [∀ state action, Decidable (Condition state action)]
    (state : State) (actions : List Action) : Decidable (EachStep step Condition state actions) :=
  decideEachStep state actions

theorem Always.start {Property : State → Prop} {state : State} {actions : List Action}
    (always : Always step Property state actions) : Property state := by
  cases actions with
  | nil => exact always
  | cons action rest => exact always.1

theorem Always.last {Property : State → Prop} {state final : State} {actions : List Action}
    (always : Always step Property state actions) (ran : run step state actions = some final) :
    Property final := by
  induction actions generalizing state with
  | nil =>
      simp only [run_nil, Option.some.injEq] at ran
      exact ran ▸ always
  | cons action rest ih =>
      obtain ⟨next, stepped, remaining⟩ := run_cons_some ran
      exact ih (always.2 next stepped) remaining

theorem Always.imp {Property Weaker : State → Prop} {state : State} {actions : List Action}
    (weaker : ∀ state, Property state → Weaker state) (always : Always step Property state actions) :
    Always step Weaker state actions := by
  induction actions generalizing state with
  | nil => exact weaker state always
  | cons action rest ih =>
      exact ⟨weaker state always.1, fun next stepped => ih (always.2 next stepped)⟩

theorem always_invariant {Invariant : State → Prop}
    (kept : ∀ state action next, Invariant state → step state action = some next → Invariant next)
    {state : State} (initial : Invariant state) (actions : List Action) :
    Always step Invariant state actions := by
  induction actions generalizing state with
  | nil => exact initial
  | cons action rest ih =>
      exact ⟨initial, fun next stepped => ih (kept state action next initial stepped)⟩

theorem always_true (state : State) (actions : List Action) :
    Always step (fun _ => True) state actions :=
  always_invariant (fun _ _ _ _ _ => trivial) trivial actions

theorem run_invariant_eachStep {Invariant : State → Prop} {Condition : State → Action → Prop}
    (kept : ∀ state action next, Condition state action → Invariant state →
      step state action = some next → Invariant next)
    {state final : State} {actions : List Action} (initial : Invariant state)
    (each : EachStep step Condition state actions) (ran : run step state actions = some final) :
    Invariant final := by
  induction actions generalizing state with
  | nil =>
      simp only [run_nil, Option.some.injEq] at ran
      exact ran ▸ initial
  | cons action rest ih =>
      obtain ⟨next, stepped, remaining⟩ := run_cons_some ran
      obtain ⟨condition, later⟩ := each next stepped
      exact ih (kept state action next condition initial stepped) later remaining

theorem eachStep_allowed {Allowed : Action → Prop} {actions : List Action}
    (allowed : ∀ action ∈ actions, Allowed action) (state : State) :
    EachStep step (fun _ action => Allowed action) state actions := by
  induction actions generalizing state with
  | nil => trivial
  | cons action rest ih =>
      intro next _
      exact ⟨allowed action (by simp), ih (fun other member => allowed other (by simp [member])) next⟩

theorem eachStep_true (state : State) (actions : List Action) :
    EachStep step (fun _ _ => True) state actions :=
  eachStep_allowed (fun _ _ => trivial) state

theorem run_invariant_allowed (Allowed : Action → Prop) {Invariant : State → Prop}
    (kept : ∀ state action next, Allowed action → Invariant state →
      step state action = some next → Invariant next)
    {state final : State} {actions : List Action}
    (allowed : ∀ action ∈ actions, Allowed action) (initial : Invariant state)
    (ran : run step state actions = some final) : Invariant final :=
  run_invariant_eachStep kept initial (eachStep_allowed allowed state) ran

theorem run_invariant {Invariant : State → Prop}
    (kept : ∀ state action next, Invariant state → step state action = some next → Invariant next)
    {state final : State} {actions : List Action} (initial : Invariant state)
    (ran : run step state actions = some final) : Invariant final :=
  run_invariant_eachStep (fun state action next _ => kept state action next) initial
    (eachStep_true state actions) ran

theorem always_eachStep {Invariant Property : State → Prop} {Condition : State → Action → Prop}
    (kept : ∀ state action next, Condition state action → Invariant state →
      step state action = some next → Invariant next)
    (holds : ∀ state, Invariant state → Property state) {state : State} {actions : List Action}
    (initial : Invariant state) (each : EachStep step Condition state actions) :
    Always step Property state actions := by
  induction actions generalizing state with
  | nil => exact holds state initial
  | cons action rest ih =>
      refine ⟨holds state initial, fun next stepped => ?_⟩
      obtain ⟨condition, later⟩ := each next stepped
      exact ih (kept state action next condition initial stepped) later

theorem eachStep_append {Condition : State → Action → Prop} {state : State}
    {first second : List Action} (early : EachStep step Condition state first)
    (late : ∀ middle, run step state first = some middle → EachStep step Condition middle second) :
    EachStep step Condition state (first ++ second) := by
  induction first generalizing state with
  | nil => exact late state rfl
  | cons action rest ih =>
      intro next stepped
      obtain ⟨condition, later⟩ := early next stepped
      refine ⟨condition, ih later fun middle ran => late middle ?_⟩
      rw [run_cons, stepped]
      exact ran

theorem EachStep.imp {Condition Condition' : State → Action → Prop} {Invariant : State → Prop}
    (kept : ∀ state action next, Invariant state → step state action = some next → Invariant next)
    (weaker : ∀ state action next, Invariant state → step state action = some next →
      Condition state action → Condition' state action)
    {state : State} {actions : List Action} (initial : Invariant state)
    (each : EachStep step Condition state actions) : EachStep step Condition' state actions := by
  induction actions generalizing state with
  | nil => trivial
  | cons action rest ih =>
      intro next stepped
      obtain ⟨condition, later⟩ := each next stepped
      exact ⟨weaker state action next initial stepped condition,
        ih (kept state action next initial stepped) later⟩

def Leads (step : State → Action → Option State) (Allowed : Action → Prop) (steps : Nat)
    (start final : State) : Prop :=
  ∀ actions, actions.length = steps → (∀ action ∈ actions, Allowed action) →
    run step start actions = some final

theorem Leads.one {Allowed : Action → Prop} {start final : State}
    (stepped : ∀ action, Allowed action → step start action = some final) :
    Leads step Allowed 1 start final := by
  intro actions length allowed
  obtain ⟨action, rfl⟩ := List.length_eq_one_iff.mp length
  rw [run_cons, stepped action (allowed action (by simp))]
  rfl

theorem Leads.trans {Allowed : Action → Prop} {first second : Nat} {start middle final : State}
    (early : Leads step Allowed first start middle)
    (late : Leads step Allowed second middle final) :
    Leads step Allowed (first + second) start final := by
  intro actions length allowed
  have front := early (actions.take first) (by rw [List.length_take]; omega)
    fun action member => allowed action (List.mem_of_mem_take member)
  have back := late (actions.drop first) (by rw [List.length_drop]; omega)
    fun action member => allowed action (List.mem_of_mem_drop member)
  rw [← List.take_append_drop first actions, run_append, front]
  exact back

def CanReach (step : State → Action → Option State) (Goal : State → Prop) (start : State) : Prop :=
  ∃ actions final, run step start actions = some final ∧ Goal final

theorem CanReach.here {Goal : State → Prop} {state : State} (holds : Goal state) :
    CanReach step Goal state := ⟨[], state, rfl, holds⟩

theorem CanReach.cons {Goal : State → Prop} {state next : State} (action : Action)
    (stepped : step state action = some next) (later : CanReach step Goal next) :
    CanReach step Goal state := by
  obtain ⟨actions, final, ran, holds⟩ := later
  refine ⟨action :: actions, final, ?_, holds⟩
  rw [run_cons, stepped]
  exact ran

theorem CanReach.trans {Middle Goal : State → Prop} {state : State} (early : CanReach step Middle state)
    (late : ∀ middle, Middle middle → CanReach step Goal middle) : CanReach step Goal state := by
  obtain ⟨actions, middle, ran, reached⟩ := early
  obtain ⟨more, final, continued, holds⟩ := late middle reached
  refine ⟨actions ++ more, final, ?_, holds⟩
  rw [run_append, ran]
  exact continued

def Reaches (step : State → Action → Option State) (Condition : State → Action → Prop)
    (start final : State) : Prop :=
  ∃ actions, EachStep step Condition start actions ∧ run step start actions = some final

theorem Reaches.start (Condition : State → Action → Prop) (state : State) :
    Reaches step Condition state state := ⟨[], trivial, rfl⟩

theorem Reaches.snoc {Condition : State → Action → Prop} {start state next : State} {action : Action}
    (reaches : Reaches step Condition start state) (condition : Condition state action)
    (stepped : step state action = some next) : Reaches step Condition start next := by
  obtain ⟨actions, each, ran⟩ := reaches
  refine ⟨actions ++ [action], eachStep_append each fun middle led => ?_, ?_⟩
  · obtain rfl := Option.some.inj (ran.symm.trans led)
    exact fun _ _ => ⟨condition, trivial⟩
  · rw [run_append, ran, Option.bind_some, run_cons, stepped]
    rfl

theorem Reaches.invariant {Invariant : State → Prop} {Condition : State → Action → Prop}
    (kept : ∀ state action next, Condition state action → Invariant state →
      step state action = some next → Invariant next)
    {start final : State} (reaches : Reaches step Condition start final)
    (initial : Invariant start) : Invariant final := by
  obtain ⟨actions, each, ran⟩ := reaches
  exact run_invariant_eachStep kept initial each ran

/-- One machine follows another and stands still where the other takes a hidden action. -/
theorem run_stutters {State' : Type*} {step' : State' → Action → Option State'}
    {Related : State → State' → Prop} {Condition : State → Action → Prop} {hidden : Action → Bool}
    (stays : ∀ state state' action next, Related state state' → Condition state action →
      hidden action = true → step state action = some next → Related next state')
    (follows : ∀ state state' action next, Related state state' → hidden action = false →
      step state action = some next →
        ∃ next', step' state' action = some next' ∧ Related next next')
    {state final : State} {state' : State'} {actions : List Action} (related : Related state state')
    (each : EachStep step Condition state actions) (ran : run step state actions = some final) :
    ∃ final', run step' state' (actions.filter fun action => !hidden action) = some final' ∧
      Related final final' := by
  induction actions generalizing state state' with
  | nil =>
      simp only [run_nil, Option.some.injEq] at ran
      exact ⟨state', rfl, ran ▸ related⟩
  | cons action rest ih =>
      obtain ⟨next, stepped, remaining⟩ := run_cons_some ran
      obtain ⟨condition, later⟩ := each next stepped
      cases kind : hidden action with
      | true =>
          obtain ⟨final', finished, there⟩ :=
            ih (stays state state' action next related condition kind stepped) later remaining
          exact ⟨final', by simpa [kind] using finished, there⟩
      | false =>
          obtain ⟨next', followed, here⟩ := follows state state' action next related kind stepped
          obtain ⟨final', finished, there⟩ := ih here later remaining
          refine ⟨final', ?_, there⟩
          rw [List.filter_cons_of_pos (by simp [kind]), run_cons, followed]
          exact finished

theorem rel_none_iff {α β : Type*} {R : α → β → Prop} {first : Option α} {second : Option β}
    (related : Option.Rel R first second) : first = none ↔ second = none := by
  cases related <;> simp

theorem rel_some {α β : Type*} {R : α → β → Prop} {first : α} {second : β}
    (related : Option.Rel R (some first) (some second)) : R first second := by
  cases related
  assumption

theorem rel_imp {α β : Type*} {R S : α → β → Prop}
    (weaker : ∀ first second, R first second → S first second)
    {first : Option α} {second : Option β} (related : Option.Rel R first second) :
    Option.Rel S first second := by
  cases related with
  | none => exact .none
  | some related => exact .some (weaker _ _ related)

theorem run_lockstep {State' : Type*} {step' : State' → Action → Option State'}
    {Related : State → State' → Prop} {Condition : State → Action → Prop}
    (matched : ∀ state state' action, Related state state' →
      (∀ next, step state action = some next → Condition state action) →
        Option.Rel Related (step state action) (step' state' action))
    {state : State} {state' : State'} {actions : List Action} (related : Related state state')
    (each : EachStep step Condition state actions) :
    Option.Rel Related (run step state actions) (run step' state' actions) := by
  induction actions generalizing state state' with
  | nil => exact .some related
  | cons action rest ih =>
      have here := matched state state' action related fun next stepped => (each next stepped).1
      rw [run_cons, run_cons]
      cases stepped : step state action with
      | none =>
          rw [(rel_none_iff here).mp stepped]
          exact .none
      | some next =>
          rw [stepped] at here
          cases stepped' : step' state' action with
          | none => exact absurd ((rel_none_iff here).mpr stepped') (by simp)
          | some next' =>
              rw [stepped'] at here
              exact ih (rel_some here) (each next stepped).2

/-- Every step that breaks its condition is caught by the property in the state it leads to, and
steps that meet it keep the state clean.  `Scope` is what the run is known to stay in. -/
theorem always_iff_eachStep_clean (Allowed : Action → Prop) {Scope Clean Property : State → Prop}
    {Condition : State → Action → Prop}
    (caught : ∀ state action next, Allowed action → Clean state → Scope state →
      step state action = some next → Scope next → Property next → Condition state action)
    (kept : ∀ state action next, Allowed action → Clean state → Scope state →
      step state action = some next → Scope next → Condition state action → Clean next)
    (holds : ∀ state, Scope state → Clean state → Property state)
    {state : State} {actions : List Action} (allowed : ∀ action ∈ actions, Allowed action)
    (scope : Always step Scope state actions) (clean : Clean state) :
    Always step Property state actions ↔ EachStep step Condition state actions := by
  induction actions generalizing state with
  | nil => exact iff_of_true (holds state scope clean) trivial
  | cons action rest ih =>
      have here : Allowed action := allowed action (by simp)
      have later (other : Action) (member : other ∈ rest) : Allowed other :=
        allowed other (by simp [member])
      constructor
      · intro always next stepped
        have inScope := scope.2 next stepped
        have remaining := always.2 next stepped
        have condition := caught state action next here clean scope.1 stepped inScope.start
          remaining.start
        have still := kept state action next here clean scope.1 stepped inScope.start condition
        exact ⟨condition, (ih later inScope still).mp remaining⟩
      · intro each
        refine ⟨holds state scope.1 clean, fun next stepped => ?_⟩
        obtain ⟨condition, remaining⟩ := each next stepped
        have inScope := scope.2 next stepped
        have still := kept state action next here clean scope.1 stepped inScope.start condition
        exact (ih later inScope still).mpr remaining

theorem always_iff_eachStep {Scope Invariant : State → Prop} {Condition : State → Action → Prop}
    (exact : ∀ state action next, Invariant state → Scope state → step state action = some next →
      Scope next → (Invariant next ↔ Condition state action))
    {state : State} {actions : List Action} (scope : Always step Scope state actions)
    (initial : Invariant state) :
    Always step Invariant state actions ↔ EachStep step Condition state actions :=
  always_iff_eachStep_clean (fun _ => True)
    (fun state action next _ clean inScope stepped nextScope =>
      (exact state action next clean inScope stepped nextScope).mp)
    (fun state action next _ clean inScope stepped nextScope =>
      (exact state action next clean inScope stepped nextScope).mpr)
    (fun _ _ clean => clean) (fun _ _ => trivial) scope initial

end StepMachine
