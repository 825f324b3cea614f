import Mathlib.Algebra.GroupWithZero.Nat
import Mathlib.Data.List.Basic
import Mathlib.Data.List.Nodup

/-! Processes kept in a list under their numbers: one of them moves, a new one starts, and some of
them are listed. -/

namespace Numbered

variable {α β : Type*} {values : List α} {value entry : α} {number index : Nat}

theorem set_cases (present : (values.set number value)[index]? = some entry) :
    index = number ∧ entry = value ∨ index ≠ number ∧ values[index]? = some entry := by
  rw [List.getElem?_set] at present
  by_cases same : number = index
  · rw [if_pos same] at present
    split at present
    · exact .inl ⟨same.symm, (Option.some.inj present).symm⟩
    · simp at present
  · rw [if_neg same] at present
    exact .inr ⟨Ne.symm same, present⟩

theorem set_self (found : values[number]? = some entry) :
    (values.set number value)[number]? = some value := by
  have bound := (List.getElem?_eq_some_iff.mp found).1
  simp [bound]

theorem set_inj {other : α} (found : values[number]? = some entry)
    (same : values.set number value = values.set number other) : value = other := by
  have there := congrArg (fun values => values[number]?) same
  simp only [set_self found, Option.some.injEq] at there
  exact there

theorem set_split (found : values[number]? = some entry) : ∃ before after,
    values = before ++ entry :: after ∧
      ∀ value, values.set number value = before ++ value :: after := by
  obtain ⟨bound, here⟩ := List.getElem?_eq_some_iff.mp found
  refine ⟨values.take number, values.drop (number + 1), ?_, fun value => ?_⟩
  · rw [← here, ← List.drop_eq_getElem_cons bound, List.take_append_drop]
  · rw [List.set_eq_take_append_cons_drop, if_pos bound]

theorem sum_set_lt {weight : α → Nat} (found : values[number]? = some entry)
    (less : weight value < weight entry) :
    ((values.set number value).map weight).sum < (values.map weight).sum := by
  induction values generalizing number with
  | nil => simp at found
  | cons first rest ih =>
      cases number with
      | zero =>
          obtain rfl : first = entry := by simpa using found
          simpa using less
      | succ number =>
          have smaller := ih (by simpa using found)
          simpa using smaller

theorem sum_set (weight : α → Nat) (found : values[number]? = some entry) (value : α) :
    ((values.set number value).map weight).sum + weight entry =
      (values.map weight).sum + weight value := by
  obtain ⟨before, after, split, replaced⟩ := set_split found
  rw [replaced, split]
  simp only [List.map_append, List.map_cons, List.sum_append, List.sum_cons]
  omega

theorem countP_set {chosen : α → Bool} (found : values[number]? = some entry) :
    (values.set number value).countP chosen + (chosen entry).toNat =
      values.countP chosen + (chosen value).toNat := by
  obtain ⟨before, after, split, replaced⟩ := set_split found
  rw [replaced, split]
  simp only [List.countP_append, List.countP_cons]
  cases chosen entry <;> cases chosen value <;> simp <;> omega

theorem append_cases (present : (values ++ [value])[index]? = some entry) :
    values[index]? = some entry ∨ index = values.length ∧ entry = value := by
  rcases Nat.lt_or_ge index values.length with below | beyond
  · rw [List.getElem?_append_left below] at present
    exact .inl present
  · rw [List.getElem?_append_right beyond] at present
    have bound := (List.getElem?_eq_some_iff.mp present).1
    simp only [List.length_singleton] at bound
    have last : index = values.length := by omega
    exact .inr ⟨last, List.mem_singleton.mp (List.mem_of_getElem? present)⟩

theorem append_old (found : values[index]? = some entry) :
    (values ++ [value])[index]? = some entry :=
  (List.getElem?_append_left (List.getElem?_eq_some_iff.mp found).1).trans found

end Numbered
