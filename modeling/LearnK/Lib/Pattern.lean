import Mathlib.Data.List.Basic

/-! Where a pattern occurs in a text, and the result of a search for it as an `int`. -/

namespace Pattern

variable {α : Type*} {text more pattern : List α} {offset : Nat} {result : Int}

def OccursAt (text pattern : List α) (offset : Nat) : Prop :=
  offset + pattern.length ≤ text.length ∧ (text.drop offset).take pattern.length = pattern

instance [DecidableEq α] : Decidable (OccursAt text pattern offset) :=
  inferInstanceAs (Decidable (_ ∧ _))

/-- The least offset, or -1 where there is none. -/
def IsFirst (text pattern : List α) (result : Int) : Prop :=
  (∃ offset : Nat, result = offset ∧ OccursAt text pattern offset ∧
    ∀ other, OccursAt text pattern other → offset ≤ other) ∨
  result = -1 ∧ ∀ offset, ¬OccursAt text pattern offset

def IsLast (text pattern : List α) (result : Int) : Prop :=
  (∃ offset : Nat, result = offset ∧ OccursAt text pattern offset ∧
    ∀ other, OccursAt text pattern other → other ≤ offset) ∨
  result = -1 ∧ ∀ offset, ¬OccursAt text pattern offset

theorem not_occursAt_of_long (long : text.length < pattern.length) (offset : Nat) :
    ¬OccursAt text pattern offset := by
  rintro ⟨fits, -⟩
  omega

theorem OccursAt.append (found : OccursAt text pattern offset) (more : List α) :
    OccursAt (text ++ more) pattern offset := by
  obtain ⟨fits, same⟩ := found
  refine ⟨by rw [List.length_append]; omega, ?_⟩
  rw [List.drop_append_of_le_length (by omega), List.take_append_of_le_length, same]
  rw [List.length_drop]
  omega

theorem OccursAt.of_append (found : OccursAt (text ++ more) pattern offset)
    (fits : offset + pattern.length ≤ text.length) : OccursAt text pattern offset := by
  refine ⟨fits, ?_⟩
  have same := found.2
  rw [List.drop_append_of_le_length (by omega), List.take_append_of_le_length] at same
  · exact same
  · rw [List.length_drop]
    omega

theorem occursAt_appended (text more : List α) : OccursAt (text ++ more) more text.length := by
  refine ⟨by simp, ?_⟩
  rw [List.drop_left, List.take_length]

theorem IsFirst.nonneg_iff (first : IsFirst text pattern result) :
    0 ≤ result ↔ ∃ offset, OccursAt text pattern offset := by
  obtain ⟨offset, rfl, found, -⟩ | ⟨rfl, absent⟩ := first
  · exact iff_of_true (by omega) ⟨offset, found⟩
  · refine iff_of_false (by omega) ?_
    rintro ⟨offset, found⟩
    exact absent offset found

theorem IsFirst.zero_iff (first : IsFirst text pattern result) :
    result = 0 ↔ OccursAt text pattern 0 := by
  obtain ⟨offset, rfl, found, least⟩ | ⟨rfl, absent⟩ := first
  · constructor
    · intro zero
      obtain rfl : offset = 0 := by omega
      exact found
    · intro start
      have bound := least 0 start
      omega
  · exact iff_of_false (by omega) (absent 0)

theorem IsFirst.occursAt (first : IsFirst text pattern result) (nonneg : 0 ≤ result) :
    OccursAt text pattern result.toNat := by
  obtain ⟨offset, rfl, found, -⟩ | ⟨rfl, -⟩ := first
  · exact found
  · omega

theorem IsFirst.unique {other : Int} (first : IsFirst text pattern result)
    (again : IsFirst text pattern other) : result = other := by
  obtain ⟨offset, rfl, found, least⟩ | ⟨rfl, absent⟩ := first
  · obtain ⟨offset', rfl, found', least'⟩ | ⟨-, absent⟩ := again
    · have lower := least offset' found'
      have upper := least' offset found
      omega
    · exact absurd found (absent offset)
  · obtain ⟨offset, -, found, -⟩ | ⟨rfl, -⟩ := again
    · exact absurd found (absent offset)
    · rfl

theorem IsFirst.append (first : IsFirst text pattern result) (nonneg : 0 ≤ result)
    (more : List α) : IsFirst (text ++ more) pattern result := by
  obtain ⟨offset, rfl, found, least⟩ | ⟨rfl, -⟩ := first
  · refine .inl ⟨offset, rfl, found.append more, fun other found' => ?_⟩
    by_contra before
    have fits := found.1
    exact before (least other (found'.of_append (by omega)))
  · omega

theorem IsFirst.beyond {other : Int} (first : IsFirst text pattern (-1))
    (again : IsFirst (text ++ more) pattern other) (nonneg : 0 ≤ other) :
    (text.length : Int) < other + pattern.length := by
  by_contra inside
  have found := again.occursAt nonneg
  have earlier : OccursAt text pattern other.toNat := found.of_append (by omega)
  have present := first.nonneg_iff.mpr ⟨_, earlier⟩
  omega

theorem IsLast.eq_end_iff (last : IsLast text pattern result) :
    result = (text.length : Int) - pattern.length ∧ pattern.length ≤ text.length ↔
      OccursAt text pattern (text.length - pattern.length) ∧ pattern.length ≤ text.length := by
  constructor
  · rintro ⟨atEnd, fits⟩
    obtain ⟨offset, same, found, -⟩ | ⟨same, -⟩ := last
    · obtain rfl : offset = text.length - pattern.length := by omega
      exact ⟨found, fits⟩
    · omega
  · rintro ⟨atEnd, fits⟩
    obtain ⟨offset, rfl, found, greatest⟩ | ⟨-, absent⟩ := last
    · have upper := found.1
      have lower := greatest _ atEnd
      exact ⟨by omega, fits⟩
    · exact absurd atEnd (absent _)

theorem IsLast.unique {other : Int} (last : IsLast text pattern result)
    (again : IsLast text pattern other) : result = other := by
  obtain ⟨offset, rfl, found, greatest⟩ | ⟨rfl, absent⟩ := last
  · obtain ⟨offset', rfl, found', greatest'⟩ | ⟨-, absent⟩ := again
    · have upper := greatest offset' found'
      have lower := greatest' offset found
      omega
    · exact absurd found (absent offset)
  · obtain ⟨offset, -, found, -⟩ | ⟨rfl, -⟩ := again
    · exact absurd found (absent offset)
    · rfl

theorem occursAt_iff : OccursAt text pattern offset ↔
    ∃ before after, text = before ++ pattern ++ after ∧ before.length = offset := by
  constructor
  · rintro ⟨fits, same⟩
    refine ⟨text.take offset, (text.drop offset).drop pattern.length, ?_, ?_⟩
    · calc text = text.take offset ++ text.drop offset := (List.take_append_drop _ _).symm
        _ = text.take offset ++ ((text.drop offset).take pattern.length ++
              (text.drop offset).drop pattern.length) :=
          congrArg (text.take offset ++ ·) (List.take_append_drop _ _).symm
        _ = text.take offset ++ pattern ++ (text.drop offset).drop pattern.length := by
          rw [same, List.append_assoc]
    · rw [List.length_take]
      omega
  · rintro ⟨before, after, rfl, rfl⟩
    exact (occursAt_appended before pattern).append after

theorem occursAt_zero_iff : OccursAt text pattern 0 ↔ pattern <+: text := by
  rw [occursAt_iff]
  constructor
  · rintro ⟨before, after, rfl, length⟩
    obtain rfl := List.eq_nil_of_length_eq_zero length
    exact ⟨after, rfl⟩
  · rintro ⟨after, rfl⟩
    exact ⟨[], after, rfl, rfl⟩

theorem occursAt_end_iff : OccursAt text pattern (text.length - pattern.length) ↔ pattern <:+ text := by
  constructor
  · intro found
    have fits := found.1
    obtain ⟨before, after, rfl, length⟩ := occursAt_iff.mp found
    simp only [List.length_append] at fits length
    obtain rfl : after = [] := List.eq_nil_of_length_eq_zero (by omega)
    exact ⟨before, (List.append_nil _).symm⟩
  · rintro ⟨before, rfl⟩
    rw [List.length_append, Nat.add_sub_cancel]
    exact occursAt_appended before pattern

theorem exists_occursAt_iff : (∃ offset, OccursAt text pattern offset) ↔ pattern <:+: text := by
  constructor
  · rintro ⟨offset, found⟩
    obtain ⟨before, after, same, -⟩ := occursAt_iff.mp found
    exact ⟨before, after, same.symm⟩
  · rintro ⟨before, after, same⟩
    exact ⟨before.length, occursAt_iff.mpr ⟨before, after, same.symm, rfl⟩⟩

theorem OccursAt.inside (found : OccursAt text pattern offset) : offset < text.length + 1 := by
  have fits := found.1
  omega

section Search

variable [DecidableEq α]

def searchIn (places : List Nat) (text pattern : List α) : Int :=
  match places.find? fun offset => OccursAt text pattern offset with
  | some offset => offset
  | none => -1

def firstOccurrence (text pattern : List α) : Int :=
  searchIn (List.range (text.length + 1)) text pattern

def lastOccurrence (text pattern : List α) : Int :=
  searchIn (List.range (text.length + 1)).reverse text pattern

theorem searchIn_cases {order : Nat → Nat → Prop} {places : List Nat} (sorted : places.Pairwise order)
    (all : ∀ offset, OccursAt text pattern offset → offset ∈ places) :
    (∃ offset : Nat, searchIn places text pattern = offset ∧ OccursAt text pattern offset ∧
      ∀ other, OccursAt text pattern other → other = offset ∨ order offset other) ∨
    searchIn places text pattern = -1 ∧ ∀ offset, ¬OccursAt text pattern offset := by
  unfold searchIn
  cases found : places.find? fun offset => decide (OccursAt text pattern offset) with
  | none =>
      refine .inr ⟨rfl, fun offset occurs => ?_⟩
      exact List.find?_eq_none.mp found offset (all offset occurs) (decide_eq_true occurs)
  | some offset =>
      obtain ⟨occurs, before, after, rfl, misses⟩ := List.find?_eq_some_iff_append.mp found
      refine .inl ⟨offset, rfl, of_decide_eq_true occurs, fun other occurs' => ?_⟩
      rcases List.mem_append.mp (all other occurs') with earlier | later
      · have missed := misses other earlier
        simp [occurs'] at missed
      · rcases List.mem_cons.mp later with same | behind
        · exact .inl same
        · exact .inr ((List.pairwise_cons.mp (List.pairwise_append.mp sorted).2.1).1 other behind)

theorem firstOccurrence_isFirst (text pattern : List α) :
    IsFirst text pattern (firstOccurrence text pattern) := by
  obtain ⟨offset, same, found, least⟩ | absent := searchIn_cases (List.pairwise_lt_range)
    fun offset found => List.mem_range.mpr (@OccursAt.inside α text pattern offset found)
  · refine .inl ⟨offset, same, found, fun other found' => ?_⟩
    have order := least other found'
    omega
  · exact .inr absent

theorem lastOccurrence_isLast (text pattern : List α) :
    IsLast text pattern (lastOccurrence text pattern) := by
  obtain ⟨offset, same, found, greatest⟩ | absent :=
    searchIn_cases (List.pairwise_reverse.mpr List.pairwise_lt_range) fun offset found =>
      List.mem_reverse.mpr (List.mem_range.mpr (@OccursAt.inside α text pattern offset found))
  · refine .inl ⟨offset, same, found, fun other found' => ?_⟩
    have order := greatest other found'
    omega
  · exact .inr absent

end Search

end Pattern
