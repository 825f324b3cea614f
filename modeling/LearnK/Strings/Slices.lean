import LearnK.Strings.Search

/-! `string_substring` and `string_char` return slices of the content as C strings of their own. -/

namespace LearnK.Strings

open ByteMemory CInt CString Pattern

def Buffer.string (buffer : Buffer) : Option (List UInt8) :=
  (nulIndex buffer.data buffer.size 0).map fun nul => slice buffer.data 0 nul

theorem string_of_copied {garbage : Nat → UInt8} {bytes : List UInt8} {size : Nat}
    (noNul : ∀ byte ∈ bytes, byte ≠ 0) (room : bytes.length < size) :
    (Buffer.mk (blit (blit garbage 0 bytes) bytes.length [0]) size).string = some bytes := by
  have joined := blit_append garbage 0 bytes [0]
  rw [Nat.zero_add] at joined
  have terminated : Terminated (blit garbage 0 (bytes ++ [0])) (0 + bytes.length) :=
    terminated_blit (by simp) ⟨bytes, noNul⟩
  have scanned : nulIndex (blit garbage 0 (bytes ++ [0])) size 0 = some (0 + bytes.length) :=
    nulIndex_eq (by simpa using terminated.noNul) terminated.nul room
  have stored := slice_blit_same garbage 0 (bytes ++ [0])
  rw [List.length_append, List.length_singleton, slice_append] at stored
  rw [Buffer.string, joined, scanned, Nat.zero_add, Option.map_some]
  exact congrArg some (List.append_inj_left' stored rfl)

theorem extract_append {bytes : List UInt8} {first middle last : Nat} (low : first ≤ middle)
    (high : middle ≤ last) :
    bytes.extract first middle ++ bytes.extract middle last = bytes.extract first last := by
  have count : last - first = (middle - first) + (last - middle) := by omega
  have place : first + (middle - first) = middle := by omega
  rw [List.extract, List.extract, List.extract, count, List.take_add, List.drop_drop, place]

section

variable {s : StringView}

theorem copy_content (legible : s.Legible) {first last : Nat} (order : first ≤ last)
    (inside : last ≤ s.len) :
    strncpy s.read first (last - first) = some (s.content.extract first last) ∧
      (s.content.extract first last).length = last - first ∧
      ∀ char ∈ s.content.extract first last, char ≠ 0 := by
  have length : (s.content.extract first last).length = last - first := by
    rw [List.extract, List.length_take, List.length_drop, content_length legible]
    omega
  have noNul : ∀ char ∈ s.content.extract first last, char ≠ 0 := fun char member =>
    content_noNul legible char (List.mem_of_mem_drop (List.mem_of_mem_take member))
  refine ⟨?_, length, noNul⟩
  have seen := ((read_content legible).append_left.drop first).take (last - first)
  rw [Int.zero_add] at seen
  have copied := strncpy_eq seen noNul
  rwa [length] at copied

theorem stringChar_content (legible : s.Legible) (garbage : Nat → UInt8) :
    ∃ buffer, stringChar (some garbage) s = some (some buffer) ∧
      buffer.string = some s.content := by
  obtain ⟨copied, length, noNul⟩ := copy_content legible (Nat.zero_le _) (Nat.le_refl s.len)
  have whole : s.content.extract 0 s.len = s.content := by
    rw [← content_length legible]
    simp [List.extract]
  rw [whole] at copied length noNul
  rw [Nat.sub_zero] at copied length
  have size : (toU32 ((s.len : Int) + 1)).toNat = s.len + 1 := by
    have short := legible.short
    unfold toU32
    omega
  have text := @string_of_copied garbage s.content (s.len + 1) noNul (by omega)
  rw [length] at text
  refine ⟨_, ?_, text⟩
  rw [stringChar, size]
  exact congrArg (Option.map _) copied

theorem stringSubstring_cases (legible : s.Legible) (garbage : Nat → UInt8) (start stop : Int32) :
    (0 ≤ start.toInt ∧ start.toInt < stop.toInt ∧ stop.toInt ≤ s.len ∧
      ∃ buffer, stringSubstring (some garbage) s start stop = some (some buffer) ∧
        buffer.string = some (s.content.extract start.toInt.toNat stop.toInt.toNat) ∧
        buffer.size = (toU64 (toS32 (stop.toInt - start.toInt + 1))).toNat ∧
        stop.toInt - start.toInt + 1 ≤ buffer.size) ∨
    (¬(0 ≤ start.toInt ∧ start.toInt < stop.toInt ∧ stop.toInt ≤ s.len) ∧
      stringSubstring (some garbage) s start stop = some none) := by
  have short := legible.short
  have low := stop.le_toInt
  have high := stop.toInt_lt
  have guard : (start.toInt < 0 ∨ toU32 stop.toInt > s.len ∨ start.toInt ≥ stop.toInt) ↔
      ¬(0 ≤ start.toInt ∧ start.toInt < stop.toInt ∧ stop.toInt ≤ s.len) := by
    unfold toU32
    omega
  rw [stringSubstring]
  by_cases refused : start.toInt < 0 ∨ toU32 stop.toInt > s.len ∨ start.toInt ≥ stop.toInt
  · exact .inr ⟨guard.mp refused, if_pos refused⟩
  · obtain ⟨nonneg, order, inside⟩ := not_not.mp (guard.not.mp refused)
    have first : start.toInt = (start.toInt.toNat : Int) := by omega
    have count : toS32 (stop.toInt - start.toInt) = (stop.toInt.toNat - start.toInt.toNat : Nat) := by
      unfold toS32
      omega
    have wide : (toU64 ((stop.toInt.toNat - start.toInt.toNat : Nat) : Int)).toNat =
        stop.toInt.toNat - start.toInt.toNat := by
      unfold toU64
      omega
    have fits : stop.toInt - start.toInt + 1 ≤
        ((toU64 (toS32 (stop.toInt - start.toInt + 1))).toNat : Int) := by
      unfold toU64 toS32
      omega
    have same : ((stop.toInt.toNat - start.toInt.toNat : Nat) : Int) = stop.toInt - start.toInt := by
      omega
    obtain ⟨copied, length, noNul⟩ := @copy_content s legible start.toInt.toNat stop.toInt.toNat
      (by omega) (by omega)
    have text := @string_of_copied garbage _
      (toU64 (toS32 (stop.toInt - start.toInt + 1))).toNat noNul (by omega)
    rw [length] at text
    refine .inl ⟨nonneg, order, inside, _, ?_, text, rfl, fits⟩
    rw [if_neg refused]
    rw [← first] at copied
    simp only [count, wide, Int.toNat_natCast, copied, Option.map_some]
    rw [same]

theorem stringSubstring_some (legible : s.Legible) {garbage : Nat → UInt8} {start stop : Int32}
    {buffer : Buffer} (made : stringSubstring (some garbage) s start stop = some (some buffer)) :
    0 ≤ start.toInt ∧ start.toInt < stop.toInt ∧ stop.toInt ≤ s.len ∧
      buffer.string = some (s.content.extract start.toInt.toNat stop.toInt.toNat) := by
  obtain ⟨nonneg, order, inside, other, same, text, -⟩ | ⟨-, refused⟩ :=
    stringSubstring_cases legible garbage start stop
  · obtain rfl := Option.some.inj (Option.some.inj (made.symm.trans same))
    exact ⟨nonneg, order, inside, text⟩
  · simp [made] at refused

theorem stringSubstring_of_bounds (legible : s.Legible) (garbage : Nat → UInt8) {start stop : Int32}
    (nonneg : 0 ≤ start.toInt) (order : start.toInt < stop.toInt) (inside : stop.toInt ≤ s.len) :
    ∃ buffer, stringSubstring (some garbage) s start stop = some (some buffer) ∧
      buffer.string = some (s.content.extract start.toInt.toNat stop.toInt.toNat) := by
  obtain ⟨-, -, -, buffer, made, text, -⟩ | ⟨outside, -⟩ :=
    stringSubstring_cases legible garbage start stop
  · exact ⟨buffer, made, text⟩
  · exact absurd ⟨nonneg, order, inside⟩ outside

end

/-- A slice for bounds that are in order and inside the string, as a C string with its NUL in the
block, and NULL for all others. -/
def BoundsExact (s : StringView) : Prop :=
  ∀ (garbage : Nat → UInt8) (start stop : Int32),
    ∃ result, stringSubstring (some garbage) s start stop = some result ∧
      (result.isSome = true ↔
        0 ≤ start.toInt ∧ start.toInt < stop.toInt ∧ stop.toInt ≤ s.len) ∧
      ∀ buffer, result = some buffer →
        buffer.string = some (s.content.extract start.toInt.toNat stop.toInt.toNat) ∧
        buffer.size = (toU64 (toS32 (stop.toInt - start.toInt + 1))).toNat ∧
        stop.toInt - start.toInt + 1 ≤ buffer.size

def JoinsExact (s : StringView) : Prop :=
  ∀ (garbage garbage' garbage'' : Nat → UInt8) (first middle last : Int32) (left right : Buffer),
    stringSubstring (some garbage) s first middle = some (some left) →
    stringSubstring (some garbage') s middle last = some (some right) →
      ∃ whole front back, left.string = some front ∧ right.string = some back ∧
        stringSubstring (some garbage'') s first last = some (some whole) ∧
        whole.string = some (front ++ back)

def FindsBack (s : StringView) (str : Text) : Prop :=
  str.strlen ≠ 0 → ∀ (garbage : Nat → UInt8) (index : Int),
    stringIndex s str = some index → 0 ≤ index →
      ∃ buffer, stringSubstring (some garbage) s (Int32.ofInt index)
          (Int32.ofInt (index + str.strlen)) = some (some buffer) ∧
        buffer.string = some str.bytes

theorem stringSubstring_boundsExact {s : StringView} (legible : s.Legible) : BoundsExact s := by
  intro garbage start stop
  obtain ⟨nonneg, order, inside, buffer, made, text, size, room⟩ | ⟨outside, refused⟩ :=
    stringSubstring_cases legible garbage start stop
  · refine ⟨some buffer, made, iff_of_true rfl ⟨nonneg, order, inside⟩, ?_⟩
    intro other same
    obtain rfl := Option.some.inj same
    exact ⟨text, size, room⟩
  · exact ⟨none, refused, iff_of_false (by simp) outside, by simp⟩

theorem stringSubstring_joinsExact {s : StringView} (legible : s.Legible) : JoinsExact s := by
  intro garbage garbage' garbage'' first middle last left right made made'
  obtain ⟨nonneg, order, -, front⟩ := stringSubstring_some legible made
  obtain ⟨-, order', inside, back⟩ := stringSubstring_some legible made'
  obtain ⟨whole, made'', text⟩ :=
    stringSubstring_of_bounds legible garbage'' nonneg (by omega) inside
  refine ⟨whole, _, _, front, back, made'', ?_⟩
  rw [extract_append (by omega) (by omega), text]

theorem stringSubstring_findsBack {s : StringView} {str : Text} (legible : s.Legible)
    (small : str.strlen < 2 ^ 32) : FindsBack s str := by
  intro nonempty garbage index indexed nonneg
  have short := legible.short
  obtain ⟨other, indexed', first⟩ := stringIndex_first legible str
  obtain rfl := Option.some.inj (indexed.symm.trans indexed')
  rw [compared_eq small] at first
  obtain ⟨fits, same⟩ := first.occursAt nonneg
  have bytes : str.bytes.length = str.strlen := rfl
  rw [content_length legible, bytes] at fits
  have start : (Int32.ofInt index).toInt = index :=
    Int32.toInt_ofInt_of_le (by omega) (by omega)
  have stop : (Int32.ofInt (index + str.strlen)).toInt = index + str.strlen :=
    Int32.toInt_ofInt_of_le (by omega) (by omega)
  obtain ⟨buffer, made, text⟩ := @stringSubstring_of_bounds s legible garbage (Int32.ofInt index)
    (Int32.ofInt (index + str.strlen)) (by omega) (by omega) (by omega)
  refine ⟨buffer, made, ?_⟩
  have count : (index + str.strlen).toNat - index.toNat = str.bytes.length := by omega
  rw [text, start, stop, List.extract, count, same]

/-- `string_substring` slices exactly, and `string_index` points at what it slices unless the
length of the pattern, cut down to an `int`, leaves a beginning of it that occurs. -/
theorem stringSubstring_exact_iff (s : StringView) (legible : s.Legible) (str : Text) :
    (BoundsExact s ∧ JoinsExact s ∧ FindsBack s str) ↔
      str.strlen < 2 ^ 32 ∨ ∀ offset, ¬OccursAt s.content (compared str) offset := by
  constructor
  · rintro ⟨-, -, finds⟩
    by_contra wrong
    obtain ⟨long, present⟩ := not_or.mp wrong
    obtain ⟨offset, found⟩ := not_forall.mp present
    obtain ⟨index, indexed, first⟩ := stringIndex_first legible str
    have nonneg := first.nonneg_iff.mpr ⟨offset, not_not.mp found⟩
    obtain ⟨buffer, made, text⟩ := finds (by omega) (fun _ => 0) index indexed nonneg
    obtain ⟨-, -, inside, slice⟩ := stringSubstring_some legible made
    have same := Option.some.inj (slice.symm.trans text)
    have short := legible.short
    have length : (s.content.extract (Int32.ofInt index).toInt.toNat
        (Int32.ofInt (index + str.strlen)).toInt.toNat).length ≤ s.len := by
      rw [List.extract, List.length_take, List.length_drop, content_length legible]
      omega
    rw [same] at length
    have bytes : str.bytes.length = str.strlen := rfl
    omega
  · intro condition
    refine ⟨stringSubstring_boundsExact legible, stringSubstring_joinsExact legible, ?_⟩
    rcases condition with small | absent
    · exact stringSubstring_findsBack legible small
    · intro nonempty garbage index indexed nonneg
      obtain ⟨other, indexed', first⟩ := stringIndex_first legible str
      obtain rfl := Option.some.inj (indexed.symm.trans indexed')
      have nowhere := isFirst_absent first absent
      omega

theorem stringSubstring_exact_iff_ab :
    BoundsExact stringAb ∧ JoinsExact stringAb ∧ FindsBack stringAb textAb :=
  (stringSubstring_exact_iff stringAb stringAb_legible textAb).mpr (.inl (by decide))

theorem stringSubstring_misses_wrapped :
    stringIndex stringAb (repeated (2 ^ 32)) = some 0 ∧
      stringSubstring (some fun _ => 0) stringAb (Int32.ofInt 0)
        (Int32.ofInt (0 + (2 ^ 32 : Nat))) = some none ∧
      ¬FindsBack stringAb (repeated (2 ^ 32)) := by
  have empty : compared (repeated (2 ^ 32)) = [] :=
    compared_wrapped (by rw [repeated_strlen, Nat.mod_self])
  obtain ⟨index, indexed, first⟩ := stringIndex_first stringAb_legible (repeated (2 ^ 32))
  rw [empty] at first
  obtain rfl : index = 0 := first.zero_iff.mpr (by simp [OccursAt])
  have refused : stringSubstring (some fun _ => 0) stringAb (Int32.ofInt 0)
      (Int32.ofInt (0 + (2 ^ 32 : Nat))) = some none := by rfl
  refine ⟨indexed, refused, fun finds => ?_⟩
  obtain ⟨buffer, made, -⟩ := finds (by rw [repeated_strlen]; decide) (fun _ => 0) 0 indexed
    (by decide)
  rw [repeated_strlen, refused] at made
  simp at made

end LearnK.Strings
