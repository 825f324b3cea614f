import Mathlib.Logic.Function.Basic

/-! Stateful computations that may fault, as plain functions on the state, with the rules that
carry a transition relation through a program and a simulation through two. -/

def FaultM (ε σ α : Type) : Type := σ → Except ε (α × σ)

namespace FaultM

variable {ε σ τ α β : Type}

instance : Monad (FaultM ε σ) where
  pure value state := .ok (value, state)
  bind action rest state :=
    match action state with
    | .ok (value, after) => rest value after
    | .error fault => .error fault

theorem bind_apply (action : FaultM ε σ α) (rest : α → FaultM ε σ β) (state : σ) :
    (action >>= rest) state = match action state with
      | .ok (value, after) => rest value after
      | .error fault => .error fault := rfl

theorem pure_apply (value : α) (state : σ) :
    (pure value : FaultM ε σ α) state = .ok (value, state) := rfl

theorem bind_run {action : FaultM ε σ α} {rest : α → FaultM ε σ β} {state middle : σ} {value : α}
    (ran : action state = .ok (value, middle)) : (action >>= rest) state = rest value middle := by
  rw [bind_apply, ran]

theorem bind_error {action : FaultM ε σ α} {rest : α → FaultM ε σ β} {state : σ} {fault : ε}
    (faulted : action state = .error fault) : (action >>= rest) state = .error fault := by
  rw [bind_apply, faulted]

theorem bind_ok {action : FaultM ε σ α} {rest : α → FaultM ε σ β} {state : σ} {result : β × σ}
    (ran : (action >>= rest) state = .ok result) :
    ∃ value middle, action state = .ok (value, middle) ∧ rest value middle = .ok result := by
  rw [bind_apply] at ran
  split at ran
  · rename_i value middle succeeded
    exact ⟨value, middle, succeeded, ran⟩
  · simp at ran

theorem ok_unique {action : FaultM ε σ α} {state after after' : σ} {value value' : α}
    (ran : action state = .ok (value, after)) (ran' : action state = .ok (value', after')) :
    value = value' ∧ after = after' :=
  Prod.mk.inj (Except.ok.inj (ran.symm.trans ran'))

/-- Every completed run of the action relates the states around it. -/
def Keeps (Relation : σ → σ → Prop) (action : FaultM ε σ α) : Prop :=
  ∀ state value after, action state = .ok (value, after) → Relation state after

theorem Keeps.pure {Relation : σ → σ → Prop} (refl : ∀ state, Relation state state) (value : α) :
    Keeps Relation (Pure.pure value : FaultM ε σ α) := by
  intro state other after ran
  obtain ⟨-, rfl⟩ := Prod.mk.inj (Except.ok.inj ran)
  exact refl state

theorem Keeps.bind {Relation : σ → σ → Prop}
    (trans : ∀ first second third, Relation first second → Relation second third →
      Relation first third)
    {action : FaultM ε σ α} {rest : α → FaultM ε σ β} (first : Keeps Relation action)
    (second : ∀ value, Keeps Relation (rest value)) : Keeps Relation (action >>= rest) := by
  intro state value after ran
  obtain ⟨middle, between, firstRan, secondRan⟩ := bind_ok ran
  exact trans _ _ _ (first _ _ _ firstRan) (second _ _ _ _ secondRan)

/-- Every completed run of the first action is matched by one of the second with the same
result. -/
def Simulates (Related : σ → τ → Prop) (action : FaultM ε σ α) (other : FaultM ε τ α) : Prop :=
  ∀ state state' value after, Related state state' → action state = .ok (value, after) →
    ∃ after', other state' = .ok (value, after') ∧ Related after after'

theorem Simulates.pure {Related : σ → τ → Prop} (value : α) :
    Simulates Related (Pure.pure value : FaultM ε σ α) (Pure.pure value) := by
  intro state state' result after related ran
  obtain ⟨rfl, rfl⟩ := Prod.mk.inj (Except.ok.inj ran)
  exact ⟨state', rfl, related⟩

theorem Simulates.bind {Related : σ → τ → Prop} {action : FaultM ε σ α} {other : FaultM ε τ α}
    {rest : α → FaultM ε σ β} {otherRest : α → FaultM ε τ β} (first : Simulates Related action other)
    (second : ∀ value, Simulates Related (rest value) (otherRest value)) :
    Simulates Related (action >>= rest) (other >>= otherRest) := by
  intro state state' result after related ran
  obtain ⟨value, middle, firstRan, secondRan⟩ := bind_ok ran
  obtain ⟨middle', matched, between⟩ := first _ _ _ _ related firstRan
  obtain ⟨after', finished, final⟩ := second value _ _ _ _ between secondRan
  refine ⟨after', ?_, final⟩
  rw [bind_apply, matched]
  exact finished

end FaultM
