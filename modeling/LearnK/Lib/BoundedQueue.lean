import LearnK.Lib.StepMachine
import Mathlib.Data.List.Forall2

/-! A bounded first-in-first-out queue as a step machine over its operations, and what a whole run
says about the items that went in and the items that came out. -/

namespace BoundedQueue

open StepMachine

variable {α : Type*}

/-- `overwrite` replaces every item that is in the queue and takes none out. -/
inductive Op (α : Type*)
  | put (items : List α)
  | take (items : List α)
  | overwrite (item : α)

def Op.puts : Op α → List α
  | .put items => items
  | _ => []

def Op.takes : Op α → List α
  | .take items => items
  | _ => []

def step [DecidableEq α] (bound : Nat) (queue : List α) : Op α → Option (List α)
  | .put items => if queue.length + items.length ≤ bound then some (queue ++ items) else none
  | .take items => if queue.take items.length = items then some (queue.drop items.length) else none
  | .overwrite item => some (queue.map fun _ => item)

/-- What became of an item: it is still itself unless one of the operations overwrote it. -/
def Faded (ops : List (Op α)) (before after : α) : Prop := after = before ∨ .overwrite after ∈ ops

section

variable [DecidableEq α] {bound : Nat} {queue next : List α} {items : List α}

theorem step_put (bound : Nat) (queue items : List α) (fits : queue.length + items.length ≤ bound) :
    step bound queue (.put items) = some (queue ++ items) := if_pos fits

theorem step_take (bound : Nat) (items rest : List α) :
    step bound (items ++ rest) (.take items) = some rest := by
  simp [step]

theorem step_put_some (stepped : step bound queue (.put items) = some next) :
    queue.length + items.length ≤ bound ∧ next = queue ++ items := by
  simp only [step] at stepped
  split at stepped
  · rename_i fits
    exact ⟨fits, (Option.some.inj stepped).symm⟩
  · simp at stepped

theorem step_take_some (stepped : step bound queue (.take items) = some next) :
    queue = items ++ next := by
  simp only [step] at stepped
  split at stepped
  · rename_i front
    obtain rfl := Option.some.inj stepped
    exact (front ▸ List.take_append_drop items.length queue).symm
  · simp at stepped

end

theorem Faded.later (op : Op α) {ops : List (Op α)} {before after : α} (faded : Faded ops before after) :
    Faded (op :: ops) before after :=
  faded.imp_right fun member => List.mem_cons_of_mem _ member

theorem faded_overwritten {ops : List (Op α)} {item : α} {early later after : List α}
    (faded : List.Forall₂ (Faded ops) (early.map (fun _ => item) ++ later) after) :
    List.Forall₂ (Faded (.overwrite item :: ops)) (early ++ later) after := by
  induction early generalizing after with
  | nil => exact faded.imp fun _ _ kept => kept.later (.overwrite item)
  | cons first rest ih =>
      cases after with
      | nil => simp at faded
      | cons got after =>
          simp only [List.map_cons, List.cons_append, List.forall₂_cons] at faded ⊢
          refine ⟨?_, ih faded.2⟩
          rcases faded.1 with rfl | member
          · exact .inr (List.mem_cons_self ..)
          · exact .inr (List.mem_cons_of_mem _ member)

theorem run_faded [DecidableEq α] {bound : Nat} {queue final : List α} {ops : List (Op α)}
    (ran : run (step bound) queue ops = some final) :
    List.Forall₂ (Faded ops) (queue ++ ops.flatMap Op.puts) (ops.flatMap Op.takes ++ final) := by
  induction ops generalizing queue with
  | nil =>
      obtain rfl := Option.some.inj ran
      rw [List.flatMap_nil, List.append_nil]
      exact List.forall₂_same.mpr fun item _ => Or.inl rfl
  | cons op rest ih =>
      obtain ⟨next, stepped, remaining⟩ := run_cons_some ran
      have later := ih remaining
      cases op with
      | put items =>
          obtain ⟨-, rfl⟩ := step_put_some stepped
          have kept := later.imp fun _ _ (faded : Faded rest _ _) => faded.later (.put items)
          simpa [Op.puts, Op.takes] using kept
      | take items =>
          obtain rfl := step_take_some stepped
          have kept := later.imp fun _ _ (faded : Faded rest _ _) => faded.later (.take items)
          have taken : List.Forall₂ (Faded (.take items :: rest)) items items :=
            List.forall₂_same.mpr fun item _ => Or.inl rfl
          simpa [Op.puts, Op.takes] using List.rel_append taken kept
      | overwrite item =>
          obtain rfl := Option.some.inj stepped
          simpa [Op.puts, Op.takes] using faded_overwritten later

end BoundedQueue
