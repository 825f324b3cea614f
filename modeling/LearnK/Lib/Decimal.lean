import Mathlib.Data.Nat.Digits.Lemmas

/-! Signed decimal numerals as bytes, the way `%d` prints them, and comma-separated lists of them
in brackets, with a reader for both. -/

namespace Decimal

def digit (value : Nat) : UInt8 := UInt8.ofNat (48 + value)

def unsigned (value : Nat) : List UInt8 :=
  if value = 0 then [digit 0] else (Nat.digits 10 value).reverse.map digit

def signed (value : Int) : List UInt8 :=
  if value < 0 then 45 :: unsigned value.natAbs else unsigned value.natAbs

def readUnsigned (bytes : List UInt8) : Nat :=
  Nat.ofDigits 10 (bytes.reverse.map fun byte => byte.toNat - 48)

def readSigned (bytes : List UInt8) : Int :=
  match bytes with
  | [] => 0
  | first :: rest => if first = 45 then -readUnsigned rest else readUnsigned (first :: rest)

def render (values : List Int) : List UInt8 :=
  91 :: ([44].intercalate (values.map signed) ++ [93])

def readList (bytes : List UInt8) : List Int :=
  let inner := bytes.tail.dropLast
  if inner = [] then [] else (inner.splitOn 44).map readSigned

theorem digit_toNat {value : Nat} (small : value < 10) : (digit value).toNat = 48 + value := by
  rw [digit, UInt8.toNat_ofNat']
  omega

theorem unsigned_mem {value : Nat} {byte : UInt8} (member : byte ∈ unsigned value) :
    48 ≤ byte.toNat ∧ byte.toNat < 58 := by
  have each (entry : Nat) (small : entry < 10) :
      48 ≤ (digit entry).toNat ∧ (digit entry).toNat < 58 := by
    rw [digit_toNat small]
    omega
  unfold unsigned at member
  split at member
  · rw [List.mem_singleton.mp member]
    exact each 0 (by omega)
  · obtain ⟨entry, listed, rfl⟩ := List.mem_map.mp member
    exact each entry (Nat.digits_lt_base (by omega) (List.mem_reverse.mp listed))

theorem unsigned_ne_nil (value : Nat) : unsigned value ≠ [] := by
  unfold unsigned
  split
  · simp
  · next nonzero => simpa [Nat.digits_ne_nil_iff_ne_zero] using nonzero

theorem readUnsigned_unsigned (value : Nat) : readUnsigned (unsigned value) = value := by
  unfold readUnsigned unsigned
  split
  · next zero => rw [zero]; rfl
  · have back : (Nat.digits 10 value).map (fun entry => (digit entry).toNat - 48) =
        Nat.digits 10 value := by
      refine (List.map_congr_left ?_).trans (List.map_id _)
      intro entry listed
      rw [digit_toNat (Nat.digits_lt_base (by omega) listed), Nat.add_sub_cancel_left]
      rfl
    rw [← List.map_reverse, List.reverse_reverse, List.map_map]
    exact (congrArg (Nat.ofDigits 10) back).trans (Nat.ofDigits_digits 10 value)

theorem signed_ne_nil (value : Int) : signed value ≠ [] := by
  unfold signed
  split
  · simp
  · exact unsigned_ne_nil _

theorem signed_mem {value : Int} {byte : UInt8} (member : byte ∈ signed value) :
    byte = 45 ∨ 48 ≤ byte.toNat ∧ byte.toNat < 58 := by
  unfold signed at member
  split at member
  · rcases List.mem_cons.mp member with minus | listed
    · exact .inl minus
    · exact .inr (unsigned_mem listed)
  · exact .inr (unsigned_mem member)

theorem comma_notMem_signed (value : Int) : 44 ∉ signed value := by
  intro member
  have shape := signed_mem member
  revert shape
  decide

theorem nul_notMem_signed (value : Int) : 0 ∉ signed value := by
  intro member
  have shape := signed_mem member
  revert shape
  decide

theorem readSigned_signed (value : Int) : readSigned (signed value) = value := by
  unfold signed
  split
  · simp only [readSigned, if_true, readUnsigned_unsigned]
    omega
  · obtain ⟨first, rest, shape⟩ := List.exists_cons_of_ne_nil (unsigned_ne_nil value.natAbs)
    have range := unsigned_mem (by rw [shape]; simp : first ∈ unsigned value.natAbs)
    have notMinus : first ≠ 45 := by
      rintro rfl
      exact absurd range.1 (by decide)
    rw [shape, readSigned]
    simp only [notMinus, if_false]
    rw [← shape, readUnsigned_unsigned]
    omega

theorem signed_length_le {value : Int} (low : -2147483648 ≤ value) (high : value < 2147483648) :
    (signed value).length ≤ 11 := by
  have digits : (unsigned value.natAbs).length ≤ 10 := by
    unfold unsigned
    split
    · simp
    · rw [List.length_map, List.length_reverse, Nat.digits_length_le_iff (by omega)]
      omega
  unfold signed
  split
  · rw [List.length_cons]
    omega
  · omega

theorem readList_render (values : List Int) : readList (render values) = values := by
  unfold readList render
  rw [List.tail_cons, List.dropLast_concat]
  cases values with
  | nil => rfl
  | cons value rest =>
      have apart : ∀ numeral ∈ (value :: rest).map signed, 44 ∉ numeral := by
        intro numeral member
        obtain ⟨other, -, rfl⟩ := List.mem_map.mp member
        exact comma_notMem_signed other
      have split := List.splitOn_intercalate 44 apart (by simp)
      have occupied : [44].intercalate ((value :: rest).map signed) ≠ [] := by
        intro empty
        rw [empty, List.splitOn_nil, List.map_cons, List.cons.injEq] at split
        exact signed_ne_nil value split.1.symm
      rw [if_neg occupied, split, List.map_map]
      refine (List.map_congr_left ?_).trans (List.map_id _)
      intro other _
      exact readSigned_signed other

theorem render_injective {first second : List Int} (same : render first = render second) :
    first = second := by
  rw [← readList_render first, same, readList_render]

theorem intercalate_cons (value : Int) (rest : List Int) :
    [44].intercalate ((value :: rest).map signed) =
      signed value ++ rest.flatMap fun other => 44 :: signed other := by
  induction rest generalizing value with
  | nil => simp
  | cons next rest ih =>
      rw [List.map_cons, List.intercalate_cons_of_ne_nil (by simp), ih, List.flatMap_cons]
      simp

theorem nul_notMem_render (values : List Int) : 0 ∉ render values := by
  have commas (rest : List Int) : 0 ∉ rest.flatMap fun other => 44 :: signed other := by
    intro member
    obtain ⟨other, -, inside⟩ := List.mem_flatMap.mp member
    rcases List.mem_cons.mp inside with comma | listed
    · exact absurd comma (by decide)
    · exact nul_notMem_signed other listed
  have inner : 0 ∉ [44].intercalate (values.map signed) := by
    cases values with
    | nil => simp
    | cons value rest =>
        rw [intercalate_cons, List.mem_append, not_or]
        exact ⟨nul_notMem_signed value, commas rest⟩
  simp [render, inner]

end Decimal
