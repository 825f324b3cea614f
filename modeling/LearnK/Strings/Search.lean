import LearnK.Strings.Invariant

/-! What the observers of a string find: one lemma for each, and from them that the searches are
exact and agree. -/

namespace LearnK.Strings

open ByteMemory CInt CString Pattern

/-- No NUL in the first `len` bytes, one at `len`, and a length that fits an `int`. -/
structure StringView.Legible (s : StringView) : Prop where
  short : s.len < 2 ^ 31
  buffer : ∃ buffer, s.str = some buffer ∧ s.len < buffer.size ∧ Terminated buffer.data s.len

theorem StringView.WellFormed.legible {s : StringView} (wellFormed : s.WellFormed)
    (short : s.len < 2 ^ 31) : s.Legible := by
  obtain ⟨buffer, held, size, terminated⟩ := wellFormed.buffer
  exact ⟨short, buffer, held, size ▸ wellFormed.room, terminated⟩

/-- What the comparisons see of a pattern, whose length passes through an `int`. -/
def compared (str : Text) : List UInt8 := str.bytes.take (str.strlen % 2 ^ 32)

theorem compared_length (str : Text) : (compared str).length = str.strlen % 2 ^ 32 := by
  rw [compared, List.length_take, Text.strlen]
  omega

theorem compared_eq {str : Text} (small : str.strlen < 2 ^ 32) : compared str = str.bytes := by
  rw [compared, Nat.mod_eq_of_lt small, Text.strlen, List.take_length]

theorem chars_take (str : Text) : str.chars.take (str.strlen % 2 ^ 32) = compared str := by
  rw [Text.chars, compared, List.take_append_of_le_length]
  exact Nat.mod_le _ _

theorem compared_noNul (str : Text) : ∀ char ∈ compared str, char ≠ 0 := by
  intro char member
  exact str.noNul char (List.mem_of_mem_take member)

theorem toU32_toS32 (length : Nat) : toU32 (toS32 length) = (length % 2 ^ 32 : Nat) := by
  unfold toU32 toS32
  omega

theorem toS32_of_guard {length bound : Nat} (small : bound < 2 ^ 31) (guard : length % 2 ^ 32 ≤ bound) :
    toS32 length = (length % 2 ^ 32 : Nat) := by
  unfold toS32
  omega

theorem toU64_mod (length : Nat) : (toU64 (length % 2 ^ 32 : Nat)).toNat = length % 2 ^ 32 := by
  unfold toU64
  omega

section

variable {s : StringView} {str : Text}

theorem content_length (legible : s.Legible) : s.content.length = s.len := by
  obtain ⟨buffer, held, -⟩ := legible.buffer
  simp [StringView.content, held]

theorem content_noNul (legible : s.Legible) : ∀ char ∈ s.content, char ≠ 0 := by
  obtain ⟨buffer, held, -, terminated⟩ := legible.buffer
  intro char member
  simp only [StringView.content, held, Option.elim_some, slice, List.mem_map, List.mem_range]
    at member
  obtain ⟨index, bound, rfl⟩ := member
  rw [Nat.zero_add]
  exact terminated.noNul index bound

theorem read_content (legible : s.Legible) : Reads s.read 0 (s.content ++ [0]) := by
  obtain ⟨buffer, held, size, terminated⟩ := legible.buffer
  have whole : s.content ++ [0] = slice buffer.data 0 (s.len + 1) := by
    rw [slice_append, StringView.content, held, Option.elim_some]
    simp [slice, terminated.nul]
  intro index char found
  have bound : index < s.len + 1 := by
    rw [whole] at found
    have inside := (List.getElem?_eq_some_iff.mp found).1
    rwa [slice_length] at inside
  rw [whole, slice_getElem? _ _ _ _ bound, Nat.zero_add] at found
  have inBlock : 0 ≤ (index : Int) ∧ (index : Int) < buffer.size := by omega
  simp only [StringView.read, held, Option.bind_some, Int.zero_add, inBlock, and_self, if_true,
    Int.toNat_natCast]
  exact found

theorem compare_content (legible : s.Legible) {offset : Nat}
    (fits : offset + str.strlen % 2 ^ 32 ≤ s.len) :
    ∃ order, strncmp s.read offset str.chars (str.strlen % 2 ^ 32) = some order ∧
      (order = 0 ↔ OccursAt s.content (compared str) offset) := by
  rw [← chars_take]
  refine strncmp_occursAt (read_content legible).append_left ?_ ?_ ?_
  · rwa [content_length legible]
  · have bound := Nat.mod_le str.strlen (2 ^ 32)
    rw [Text.chars, List.length_append]
    exact Nat.le_add_right_of_le bound
  · rw [chars_take]
    exact compared_noNul str

theorem compared_too_long (legible : s.Legible) (long : s.len < str.strlen % 2 ^ 32) (offset : Nat) :
    ¬OccursAt s.content (compared str) offset := by
  apply not_occursAt_of_long
  rwa [content_length legible, compared_length]

theorem indexLoop_first (legible : s.Legible) {left offset : Nat}
    (rounds : left = s.len + 1 - str.strlen % 2 ^ 32 - offset)
    (before : ∀ place < offset, ¬OccursAt s.content (compared str) place) :
    ∃ result, indexLoop s str (str.strlen % 2 ^ 32 : Nat) left offset = some result ∧
      IsFirst s.content (compared str) result := by
  have length := content_length legible
  have width := compared_length str
  induction left generalizing offset with
  | zero =>
      refine ⟨-1, rfl, .inr ⟨rfl, fun place found => ?_⟩⟩
      have fits := found.1
      exact before place (by omega) found
  | succ left ih =>
      obtain ⟨order, ordered, zero⟩ := @compare_content s str legible offset (by omega)
      rw [indexLoop, toU64_mod, ordered, Option.bind_some]
      by_cases here : order = 0
      · refine ⟨offset, if_pos here, .inl ⟨offset, rfl, zero.mp here, fun other found => ?_⟩⟩
        by_contra earlier
        exact before other (by omega) found
      · have absent : ¬OccursAt s.content (compared str) offset := fun found => here (zero.mpr found)
        have nonempty : 0 < str.strlen % 2 ^ 32 := by
          by_contra empty
          refine absent ⟨by omega, ?_⟩
          have nothing : compared str = [] := List.eq_nil_of_length_eq_zero (by omega)
          simp [nothing]
        have short := legible.short
        have next : toS32 ((offset : Int) + 1) = (offset + 1 : Nat) := by
          unfold toS32
          omega
        rw [if_neg here, next]
        refine ih (by omega) fun place earlier => ?_
        by_cases same : place = offset
        · rw [same]
          exact absent
        · exact before place (by omega)

theorem stringIndex_first (legible : s.Legible) (str : Text) :
    ∃ result, stringIndex s str = some result ∧ IsFirst s.content (compared str) result := by
  have short := legible.short
  simp only [stringIndex, toU32_toS32]
  by_cases long : s.len < str.strlen % 2 ^ 32
  · exact ⟨-1, if_pos (by omega), .inr ⟨rfl, compared_too_long legible long⟩⟩
  · have rounds : (toU32 ((s.len : Int) - (str.strlen % 2 ^ 32 : Nat))).toNat + 1 =
        s.len + 1 - str.strlen % 2 ^ 32 - 0 := by
      unfold toU32
      omega
    rw [if_neg (by omega), toS32_of_guard short (by omega), rounds]
    exact indexLoop_first legible rfl (by simp)

theorem lastIndexLoop_last (legible : s.Legible) {bound : Nat}
    (fits : bound + str.strlen % 2 ^ 32 ≤ s.len + 1)
    (after : ∀ place, bound ≤ place → ¬OccursAt s.content (compared str) place) :
    ∃ result, lastIndexLoop s str (str.strlen % 2 ^ 32 : Nat) bound = some result ∧
      IsLast s.content (compared str) result := by
  induction bound with
  | zero => exact ⟨-1, rfl, .inr ⟨rfl, fun place => after place (Nat.zero_le _)⟩⟩
  | succ offset ih =>
      obtain ⟨order, ordered, zero⟩ := @compare_content s str legible offset (by omega)
      rw [lastIndexLoop, toU64_mod, ordered, Option.bind_some]
      by_cases here : order = 0
      · refine ⟨offset, if_pos here, .inl ⟨offset, rfl, zero.mp here, fun other found => ?_⟩⟩
        by_contra later
        exact after other (by omega) found
      · rw [if_neg here]
        refine ih (by omega) fun place later => ?_
        by_cases same : place = offset
        · rw [same]
          exact fun found => here (zero.mpr found)
        · exact after place (by omega)

theorem stringLastIndex_last (legible : s.Legible) (str : Text) :
    ∃ result, stringLastIndex s str = some result ∧ IsLast s.content (compared str) result := by
  have short := legible.short
  have length := content_length legible
  have width := compared_length str
  simp only [stringLastIndex, toU32_toS32]
  by_cases long : s.len < str.strlen % 2 ^ 32
  · exact ⟨-1, if_pos (by omega), .inr ⟨rfl, compared_too_long legible long⟩⟩
  · have rounds : (toS32 ((s.len : Int) - (str.strlen % 2 ^ 32 : Nat)) + 1).toNat =
        s.len + 1 - str.strlen % 2 ^ 32 := by
      unfold toS32
      omega
    rw [if_neg (by omega), toS32_of_guard short (by omega), rounds]
    refine lastIndexLoop_last legible (by omega) fun place later found => ?_
    have fits := found.1
    omega

theorem stringHasPrefix_iff (legible : s.Legible) (str : Text) :
    ∃ result, stringHasPrefix s str = some result ∧
      (result = true ↔ OccursAt s.content (compared str) 0) := by
  have short := legible.short
  simp only [stringHasPrefix, toU32_toS32]
  by_cases long : s.len < str.strlen % 2 ^ 32
  · exact ⟨false, if_pos (by omega), iff_of_false (by simp) (compared_too_long legible long 0)⟩
  · obtain ⟨order, ordered, zero⟩ := @compare_content s str legible 0 (by omega)
    rw [if_neg (by omega), toS32_of_guard short (by omega), toU64_mod]
    refine ⟨order == 0, ?_, by simpa using zero⟩
    exact congrArg (Option.map (· == 0)) ordered

theorem stringHasSuffix_iff (legible : s.Legible) (str : Text) :
    ∃ result, stringHasSuffix s str = some result ∧ (result = true ↔
      OccursAt s.content (compared str) (s.content.length - (compared str).length)) := by
  have short := legible.short
  rw [content_length legible, compared_length]
  simp only [stringHasSuffix, toU32_toS32]
  by_cases long : s.len < str.strlen % 2 ^ 32
  · exact ⟨false, if_pos (by omega), iff_of_false (by simp) (compared_too_long legible long _)⟩
  · obtain ⟨order, ordered, zero⟩ := @compare_content s str legible (s.len - str.strlen % 2 ^ 32)
      (by omega)
    have place : (s.len : Int) - (str.strlen % 2 ^ 32 : Nat) = (s.len - str.strlen % 2 ^ 32 : Nat) := by
      omega
    rw [if_neg (by omega), toS32_of_guard short (by omega), toU64_mod, place]
    refine ⟨order == 0, ?_, by simpa using zero⟩
    exact congrArg (Option.map (· == 0)) ordered

theorem stringHasSubstring_iff (legible : s.Legible) (str : Text) :
    ∃ result, stringHasSubstring s str = some result ∧
      (result = true ↔ str.strlen % 2 ^ 32 ≤ s.len ∧ ∃ place, OccursAt s.content str.bytes place) := by
  simp only [stringHasSubstring, toU32_toS32]
  by_cases long : s.len < str.strlen % 2 ^ 32
  · exact ⟨false, if_pos (by omega), iff_of_false (by simp) fun found => by omega⟩
  · obtain ⟨buffer, held, size, -⟩ := legible.buffer
    have enough : s.content.length < s.str.elim 0 Buffer.size + 1 := by
      rw [content_length legible, held, Option.elim_some]
      omega
    obtain ⟨found, searched, present⟩ := @strstr_isSome_iff _ _ _ str (read_content legible)
      (content_noNul legible) enough
    rw [if_neg (by omega), searched]
    exact ⟨found.isSome, rfl, present.trans ⟨fun place => ⟨by omega, place⟩, fun both => both.2⟩⟩

end

def SearchesExact (s : StringView) (str : Text) : Prop :=
  ∃ index lastIndex hasSubstring hasPrefix hasSuffix,
    stringIndex s str = some index ∧ stringLastIndex s str = some lastIndex ∧
    stringHasSubstring s str = some hasSubstring ∧ stringHasPrefix s str = some hasPrefix ∧
    stringHasSuffix s str = some hasSuffix ∧
    IsFirst s.content str.bytes index ∧ IsLast s.content str.bytes lastIndex ∧
    (hasSubstring = true ↔ 0 ≤ index) ∧ (hasPrefix = true ↔ index = 0) ∧
    (hasSuffix = true ↔ lastIndex = (s.len : Int) - str.strlen ∧ str.strlen ≤ s.len)

theorem isFirst_absent {s : StringView} {str : Text} {result : Int}
    (first : IsFirst s.content (compared str) result)
    (absent : ∀ offset, ¬OccursAt s.content (compared str) offset) : result = -1 := by
  obtain ⟨offset, -, found, -⟩ | ⟨rfl, -⟩ := first
  · exact absurd found (absent offset)
  · rfl

theorem isLast_absent {s : StringView} {str : Text} {result : Int}
    (last : IsLast s.content (compared str) result)
    (absent : ∀ offset, ¬OccursAt s.content (compared str) offset) : result = -1 := by
  obtain ⟨offset, -, found, -⟩ | ⟨rfl, -⟩ := last
  · exact absurd found (absent offset)
  · rfl

/-- The searches are exact and agree, unless the pattern has 2^32 bytes or more and its length,
cut down to an `int`, leaves a beginning of it that does occur. -/
theorem stringSearches_exact_iff (s : StringView) (legible : s.Legible) (str : Text) :
    SearchesExact s str ↔
      str.strlen < 2 ^ 32 ∨ ∀ offset, ¬OccursAt s.content (compared str) offset := by
  have short := legible.short
  have length := content_length legible
  obtain ⟨index, indexed, first⟩ := stringIndex_first legible str
  obtain ⟨lastIndex, lastIndexed, last⟩ := stringLastIndex_last legible str
  obtain ⟨hasSubstring, searched, substringIff⟩ := stringHasSubstring_iff legible str
  obtain ⟨hasPrefix, began, prefixIff⟩ := stringHasPrefix_iff legible str
  obtain ⟨hasSuffix, ended, suffixIff⟩ := stringHasSuffix_iff legible str
  have tooLong (long : ¬str.strlen < 2 ^ 32) (offset : Nat) :
      ¬OccursAt s.content str.bytes offset := by
    apply not_occursAt_of_long
    rw [length]
    exact Nat.lt_of_lt_of_le short (Nat.le_trans (by omega) (Nat.le_of_not_lt long))
  constructor
  · rintro ⟨_, _, _, _, _, indexed', -, -, -, -, whole, -⟩
    obtain rfl := Option.some.inj (indexed.symm.trans indexed')
    by_contra wrong
    obtain ⟨long, present⟩ := not_or.mp wrong
    obtain ⟨offset, found⟩ := not_forall.mp present
    have nonneg := first.nonneg_iff.mpr ⟨offset, not_not.mp found⟩
    exact tooLong long _ (whole.occursAt nonneg)
  · intro condition
    refine ⟨index, lastIndex, hasSubstring, hasPrefix, hasSuffix, indexed, lastIndexed, searched,
      began, ended, ?_⟩
    by_cases small : str.strlen < 2 ^ 32
    · have all := compared_eq small
      have bytes : str.bytes.length = str.strlen := rfl
      rw [all] at first last prefixIff suffixIff
      refine ⟨first, last, ?_, prefixIff.trans first.zero_iff.symm, ?_⟩
      · rw [substringIff, first.nonneg_iff, Nat.mod_eq_of_lt small]
        refine ⟨fun both => both.2, fun present => ⟨?_, present⟩⟩
        obtain ⟨offset, fits, -⟩ := present
        omega
      · have atEnd := last.eq_end_iff
        rw [length, bytes] at atEnd
        rw [length, bytes] at suffixIff
        rw [suffixIff, atEnd]
        refine ⟨fun found => ⟨found, ?_⟩, fun both => both.1⟩
        have fits := found.1
        omega
    · have absent := condition.resolve_left small
      have noIndex := isFirst_absent first absent
      have noLast := isLast_absent last absent
      have none' := tooLong small
      refine ⟨.inr ⟨noIndex, none'⟩, .inr ⟨noLast, none'⟩, ?_, ?_, ?_⟩
      · rw [substringIff]
        exact iff_of_false (fun both => none' _ both.2.choose_spec) (by omega)
      · rw [prefixIff]
        exact iff_of_false (absent 0) (by omega)
      · rw [suffixIff]
        exact iff_of_false (absent _) (by omega)

def stringAb : StringView where
  str := some ⟨blit (fun _ => 7) 0 [97, 98, 0], 3⟩
  len := 2
  cap := 3
  stores := []

theorem stringAb_legible : stringAb.Legible where
  short := by decide
  buffer := by
    refine ⟨_, rfl, by decide, ?_, rfl⟩
    decide

theorem stringSearches_exact_iff_ab : SearchesExact stringAb textAb :=
  (stringSearches_exact_iff stringAb stringAb_legible textAb).mpr (.inl (by decide))

def repeated (length : Nat) : Text := ⟨List.replicate length 97, fun _ member => by
  rw [List.eq_of_mem_replicate member]
  decide⟩

theorem repeated_strlen (length : Nat) : (repeated length).strlen = length :=
  List.length_replicate

theorem compared_wrapped {str : Text} (wrapped : str.strlen % 2 ^ 32 = 0) : compared str = [] :=
  List.eq_nil_of_length_eq_zero ((compared_length str).trans wrapped)

theorem stringIndex_finds_wrapped : stringIndex stringAb (repeated (2 ^ 32)) = some 0 ∧
    (∀ offset, ¬OccursAt stringAb.content (repeated (2 ^ 32)).bytes offset) ∧
    ¬SearchesExact stringAb (repeated (2 ^ 32)) := by
  have empty : compared (repeated (2 ^ 32)) = [] :=
    compared_wrapped (by rw [repeated_strlen, Nat.mod_self])
  obtain ⟨index, indexed, first⟩ := stringIndex_first stringAb_legible (repeated (2 ^ 32))
  rw [empty] at first
  obtain rfl : index = 0 := first.zero_iff.mpr (by simp [OccursAt])
  have absent (offset : Nat) : ¬OccursAt stringAb.content (repeated (2 ^ 32)).bytes offset := by
    apply not_occursAt_of_long
    have long := repeated_strlen (2 ^ 32)
    rw [Text.strlen] at long
    rw [long, content_length stringAb_legible]
    decide
  refine ⟨indexed, absent, ?_⟩
  rintro ⟨_, _, _, _, _, indexed', -, -, -, -, whole, -⟩
  obtain rfl := Option.some.inj (indexed.symm.trans indexed')
  exact absent 0 (whole.zero_iff.mp rfl)

end LearnK.Strings
