import Mathlib.Data.List.Basic
import Mathlib.Data.List.Induction
import Mathlib.Data.Set.Function
import Mathlib.Data.List.Count
import Mathlib.Logic.Function.Iterate

/-! Workers that step in any order on one memory, each with locals of its own.  Where no worker
writes what another one looks at, each of them gets as far as it would have got alone. -/

namespace Independent

open Function

variable {ι Address Value Local : Type*}

/-- Every step keeps the locals valid, depends on nothing outside `region`, and writes nothing
outside `writes`. -/
structure Confined (step : (Address → Value) × Local → (Address → Value) × Local)
    (Valid : Local → Prop) (region writes : Set Address) : Prop where
  valid : ∀ memory locals, Valid locals → Valid (step (memory, locals)).2
  locals : ∀ memory other locals, Valid locals → Set.EqOn memory other region →
    (step (memory, locals)).2 = (step (other, locals)).2
  memory : ∀ memory other locals, Valid locals → Set.EqOn memory other region →
    Set.EqOn (step (memory, locals)).1 (step (other, locals)).1 region
  frame : ∀ memory locals, Valid locals → ∀ address, address ∉ writes →
    (step (memory, locals)).1 address = memory address

structure State (ι Address Value Local : Type*) where
  memory : Address → Value
  locals : ι → Local

section

variable [DecidableEq ι] {step : (Address → Value) × Local → (Address → Value) × Local}

def move (step : (Address → Value) × Local → (Address → Value) × Local)
    (state : State ι Address Value Local) (worker : ι) : State ι Address Value Local where
  memory := (step (state.memory, state.locals worker)).1
  locals := update state.locals worker (step (state.memory, state.locals worker)).2

def runAll (step : (Address → Value) × Local → (Address → Value) × Local)
    (state : State ι Address Value Local) (schedule : List ι) : State ι Address Value Local :=
  schedule.foldl (move step) state

theorem runAll_snoc (state : State ι Address Value Local) (schedule : List ι) (worker : ι) :
    runAll step state (schedule ++ [worker]) = move step (runAll step state schedule) worker := by
  simp [runAll]

variable {Valid : ι → Local → Prop} {region writes : ι → Set Address}

/-- What a worker sees after the schedule is what it would see after its own steps alone. -/
structure AsAlone (step : (Address → Value) × Local → (Address → Value) × Local)
    (Valid : ι → Local → Prop) (region : ι → Set Address) (start : State ι Address Value Local)
    (steps : Nat) (worker : ι) (state : State ι Address Value Local) : Prop where
  valid : Valid worker (state.locals worker)
  locals : state.locals worker = (step^[steps] (start.memory, start.locals worker)).2
  memory : Set.EqOn state.memory (step^[steps] (start.memory, start.locals worker)).1 (region worker)

theorem asAlone_self {start state : State ι Address Value Local} {worker : ι} {steps : Nat}
    (confined : Confined step (Valid worker) (region worker) (writes worker))
    (before : AsAlone step Valid region start steps worker state) :
    AsAlone step Valid region start (steps + 1) worker (move step state worker) := by
  have iterated := iterate_succ_apply' step steps (start.memory, start.locals worker)
  obtain ⟨valid, same, agree⟩ := before
  generalize step^[steps] (start.memory, start.locals worker) = alone at same agree iterated
  obtain ⟨other, locals⟩ := alone
  simp only at same agree
  refine ⟨?_, ?_, ?_⟩
  · simpa [move] using confined.valid _ _ valid
  · rw [iterated, move]
    simpa [same] using confined.locals _ other _ (same ▸ valid) agree
  · rw [iterated, move]
    simpa [same] using confined.memory _ other _ (same ▸ valid) agree

theorem asAlone_other {start state : State ι Address Value Local} {worker mover : ι} {steps : Nat}
    (different : worker ≠ mover)
    (confined : Confined step (Valid mover) (region mover) (writes mover))
    (moves : Valid mover (state.locals mover)) (apart : ∀ address ∈ writes mover, address ∉ region worker)
    (before : AsAlone step Valid region start steps worker state) :
    AsAlone step Valid region start steps worker (move step state mover) := by
  have kept : (move step state mover).locals worker = state.locals worker :=
    update_of_ne different _ _
  refine ⟨kept ▸ before.valid, kept.trans before.locals, fun address inside => ?_⟩
  have untouched : address ∉ writes mover := fun written => apart address written inside
  exact (confined.frame _ _ moves address untouched).trans (before.memory inside)

/-- In any schedule each worker is where its own steps alone lead, and what nobody writes stays. -/
theorem runAll_asAlone (start : State ι Address Value Local)
    (confined : ∀ worker, Confined step (Valid worker) (region worker) (writes worker))
    (valid : ∀ worker, Valid worker (start.locals worker))
    (apart : ∀ worker other, worker ≠ other → ∀ address ∈ writes worker, address ∉ region other)
    (schedule : List ι) :
    (∀ worker, AsAlone step Valid region start (schedule.count worker) worker
      (runAll step start schedule)) ∧
      ∀ address, (∀ worker, address ∉ writes worker) →
        (runAll step start schedule).memory address = start.memory address := by
  induction schedule using List.reverseRecOn with
  | nil =>
      refine ⟨fun worker => ?_, fun _ _ => rfl⟩
      exact ⟨valid worker, rfl, fun _ _ => rfl⟩
  | append_singleton schedule mover ih =>
      obtain ⟨alone, frame⟩ := ih
      rw [runAll_snoc]
      refine ⟨fun worker => ?_, fun address outside => ?_⟩
      · by_cases same : worker = mover
        · subst same
          rw [List.count_append, List.count_singleton_self]
          exact asAlone_self (confined worker) (alone worker)
        · rw [List.count_append, List.count_singleton, if_neg (by simpa using Ne.symm same)]
          exact asAlone_other same (confined mover) (alone mover).valid
            (apart mover worker (Ne.symm same)) (alone worker)
      · exact ((confined mover).frame _ _ (alone mover).valid address (outside mover)).trans
          (frame address outside)

theorem runAll_append (state : State ι Address Value Local) (first second : List ι) :
    runAll step state (first ++ second) = runAll step (runAll step state first) second :=
  List.foldl_append

theorem runAll_replicate (state : State ι Address Value Local) (worker : ι) (steps : Nat) :
    (runAll step state (List.replicate steps worker)).memory =
        (step^[steps] (state.memory, state.locals worker)).1 ∧
      (runAll step state (List.replicate steps worker)).locals =
        update state.locals worker (step^[steps] (state.memory, state.locals worker)).2 := by
  induction steps with
  | zero => exact ⟨rfl, (update_eq_self worker state.locals).symm⟩
  | succ steps ih =>
      obtain ⟨memory, locals⟩ := ih
      rw [List.replicate_succ', runAll_snoc, iterate_succ_apply', move, locals, update_self, memory]
      exact ⟨rfl, update_idem _ _ _⟩

theorem runAll_inTurn (steps : ι → Nat) {order : List ι} (once : order.Nodup)
    (state : State ι Address Value Local) :
    (runAll step state (order.flatMap fun worker => List.replicate (steps worker) worker)).memory =
      order.foldl (fun memory worker => (step^[steps worker] (memory, state.locals worker)).1)
        state.memory := by
  induction order generalizing state with
  | nil => rfl
  | cons worker rest ih =>
      obtain ⟨notLater, once⟩ := List.nodup_cons.mp once
      obtain ⟨memory, locals⟩ := @runAll_replicate _ _ _ _ _ step state worker (steps worker)
      rw [List.flatMap_cons, runAll_append, ih once, List.foldl_cons, memory]
      refine List.foldl_ext _ _ _ fun memory other later => ?_
      have different : other ≠ worker := fun same => notLater (same ▸ later)
      rw [locals, update_of_ne different]

theorem count_inTurn (steps : ι → Nat) {order : List ι} (once : order.Nodup) (worker : ι) :
    (order.flatMap fun other => List.replicate (steps other) other).count worker =
      if worker ∈ order then steps worker else 0 := by
  induction order with
  | nil => rfl
  | cons first rest ih =>
      obtain ⟨notLater, once⟩ := List.nodup_cons.mp once
      rw [List.flatMap_cons, List.count_append, ih once, List.count_replicate]
      by_cases same : first = worker
      · subst same
        simp [notLater]
      · simp [same, Ne.symm same]

/-- Whatever the schedule, the memory is the one that the workers leave when each takes its steps in
one go, in any order. -/
theorem runAll_eq_inTurn (start : State ι Address Value Local)
    (confined : ∀ worker, Confined step (Valid worker) (region worker) (writes worker))
    (valid : ∀ worker, Valid worker (start.locals worker))
    (inside : ∀ worker, writes worker ⊆ region worker)
    (apart : ∀ worker other, worker ≠ other → ∀ address ∈ writes worker, address ∉ region other)
    (schedule : List ι) {order : List ι} (once : order.Nodup) (all : ∀ worker, worker ∈ order) :
    (runAll step start schedule).memory =
      order.foldl (fun memory worker => (step^[schedule.count worker] (memory, start.locals worker)).1)
        start.memory := by
  rw [← runAll_inTurn (fun worker => schedule.count worker) once start]
  have counted (worker : ι) : (order.flatMap fun other =>
      List.replicate (schedule.count other) other).count worker = schedule.count worker := by
    rw [count_inTurn _ once, if_pos (all worker)]
  obtain ⟨together, kept⟩ := runAll_asAlone start confined valid apart schedule
  obtain ⟨inTurn, keptInTurn⟩ := runAll_asAlone start confined valid apart
    (order.flatMap fun other => List.replicate (schedule.count other) other)
  funext address
  by_cases touched : ∃ worker, address ∈ writes worker
  · obtain ⟨worker, written⟩ := touched
    have member := inside worker written
    rw [(together worker).memory member, (inTurn worker).memory member, counted]
  · have untouched : ∀ worker, address ∉ writes worker := fun worker written => touched ⟨worker, written⟩
    rw [kept address untouched, keptInTurn address untouched]

end

end Independent
