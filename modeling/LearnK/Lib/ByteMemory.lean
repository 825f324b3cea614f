import Mathlib.Algebra.GroupWithZero.Nat
import Mathlib.Data.List.Basic

/-! Linear memory as a function from addresses, with the ranges, block stores and
ascending copies that C code makes in it. Nothing here bounds an address: that a
program stays inside its array is a theorem about the program. -/

namespace ByteMemory

variable {α : Type*}

def slice (memory : Nat → α) (start length : Nat) : List α :=
  (List.range length).map fun index => memory (start + index)

def blit (memory : Nat → α) (start : Nat) (bytes : List α) : Nat → α := fun address =>
  if address < start then memory address else bytes.getD (address - start) (memory address)

def copyForward (memory : Nat → α) (target source : Nat) : Nat → Nat → α
  | 0 => memory
  | length + 1 =>
      copyForward (fun address => if address = target then memory source else memory address)
        (target + 1) (source + 1) length

/-- Copies the cells in the order of the list, each one as it is at that moment. -/
def copyInOrder (memory : Nat → α) (target source : Nat) : List Nat → Nat → α
  | [] => memory
  | index :: rest =>
      copyInOrder (fun address => if address = target + index then memory (source + index)
        else memory address) target source rest

def Apart (first second length : Nat) : Prop :=
  ∀ address, ¬((first ≤ address ∧ address < first + length) ∧
    (second ≤ address ∧ address < second + length))

def littleEndian (width value : Nat) : List UInt8 :=
  (List.range width).map fun index => UInt8.ofNat (value / 256 ^ index)

def ofLittleEndian (bytes : List UInt8) : Nat :=
  bytes.foldr (fun byte rest => byte.toNat + 256 * rest) 0

@[simp] theorem littleEndian_length (width value : Nat) :
    (littleEndian width value).length = width := by
  simp [littleEndian]

theorem littleEndian_succ (width value : Nat) :
    littleEndian (width + 1) value = UInt8.ofNat value :: littleEndian width (value / 256) := by
  simp [littleEndian, List.range_succ_eq_map, Function.comp_def, Nat.pow_succ',
    Nat.div_div_eq_div_mul]

theorem ofLittleEndian_cons (byte : UInt8) (bytes : List UInt8) :
    ofLittleEndian (byte :: bytes) = byte.toNat + 256 * ofLittleEndian bytes := rfl

theorem ofLittleEndian_littleEndian {width value : Nat} (bound : value < 256 ^ width) :
    ofLittleEndian (littleEndian width value) = value := by
  induction width generalizing value with
  | zero =>
      simp only [Nat.pow_zero] at bound
      obtain rfl : value = 0 := by omega
      rfl
  | succ width ih =>
      rw [Nat.pow_succ] at bound
      have shorter : value / 256 < 256 ^ width := Nat.div_lt_of_lt_mul (by omega)
      rw [littleEndian_succ, ofLittleEndian_cons, ih shorter, UInt8.toNat_ofNat']
      omega

theorem ofLittleEndian_lt (bytes : List UInt8) : ofLittleEndian bytes < 256 ^ bytes.length := by
  induction bytes with
  | nil => simp [ofLittleEndian]
  | cons byte rest ih =>
      have small : byte.toNat < 256 := byte.toNat_lt
      rw [ofLittleEndian_cons, List.length_cons, Nat.pow_succ]
      omega

theorem littleEndian_ofLittleEndian (bytes : List UInt8) :
    littleEndian bytes.length (ofLittleEndian bytes) = bytes := by
  induction bytes with
  | nil => rfl
  | cons byte rest ih =>
      have small : byte.toNat < 256 := byte.toNat_lt
      have quotient : (byte.toNat + 256 * ofLittleEndian rest) / 256 = ofLittleEndian rest := by
        omega
      have lowest : UInt8.ofNat (byte.toNat + 256 * ofLittleEndian rest) = byte := by
        apply UInt8.toNat_inj.mp
        rw [UInt8.toNat_ofNat']
        omega
      rw [List.length_cons, ofLittleEndian_cons, littleEndian_succ, quotient, ih, lowest]

@[simp] theorem slice_zero (memory : Nat → α) (start : Nat) : slice memory start 0 = [] := rfl

@[simp] theorem slice_length (memory : Nat → α) (start length : Nat) :
    (slice memory start length).length = length := by
  simp [slice]

theorem slice_getElem? (memory : Nat → α) (start length index : Nat) (bound : index < length) :
    (slice memory start length)[index]? = some (memory (start + index)) := by
  simp [slice, bound]

theorem slice_append (memory : Nat → α) (start first second : Nat) :
    slice memory start (first + second) =
      slice memory start first ++ slice memory (start + first) second := by
  simp [slice, List.range_add, Function.comp_def, Nat.add_assoc]

theorem slice_congr {first second : Nat → α} {start other length : Nat}
    (same : ∀ index < length, first (start + index) = second (other + index)) :
    slice first start length = slice second other length := by
  apply List.map_congr_left
  intro index member
  exact same index (List.mem_range.mp member)

theorem blit_below (memory : Nat → α) {start address : Nat} (bytes : List α)
    (below : address < start) : blit memory start bytes address = memory address := by
  simp [blit, below]

theorem blit_above (memory : Nat → α) {start address : Nat} (bytes : List α)
    (above : start + bytes.length ≤ address) :
    blit memory start bytes address = memory address := by
  have outside : bytes.length ≤ address - start := by omega
  simp [blit, outside, List.getD_eq_getElem?_getD]

theorem blit_inside (memory : Nat → α) (start : Nat) (bytes : List α) {index : Nat}
    (bound : index < bytes.length) : blit memory start bytes (start + index) = bytes[index] := by
  have notBelow : ¬start + index < start := by omega
  simp only [blit, notBelow, if_false, Nat.add_sub_cancel_left]
  simp [List.getD_eq_getElem?_getD, bound]

theorem slice_blit_same (memory : Nat → α) (start : Nat) (bytes : List α) :
    slice (blit memory start bytes) start bytes.length = bytes := by
  apply List.ext_getElem
  · simp
  · intro index _ bound
    simp [slice, blit_inside memory start bytes bound]

theorem slice_blit_apart (memory : Nat → α) {start other length : Nat} (bytes : List α)
    (apart : other + length ≤ start ∨ start + bytes.length ≤ other) :
    slice (blit memory start bytes) other length = slice memory other length := by
  apply slice_congr
  intro index bound
  rcases apart with before | after
  · exact blit_below memory bytes (by omega)
  · exact blit_above memory bytes (by omega)

theorem slice_blit_after (memory : Nat → α) (start : Nat) (bytes : List α) :
    slice (blit memory start bytes) 0 (start + bytes.length) = slice memory 0 start ++ bytes := by
  rw [slice_append, Nat.zero_add, slice_blit_apart _ _ (.inl (by omega)), slice_blit_same]

theorem blit_nil (memory : Nat → α) (start : Nat) : blit memory start [] = memory := by
  funext address
  simp [blit]

theorem blit_append (memory : Nat → α) (start : Nat) (first second : List α) :
    blit (blit memory start first) (start + first.length) second =
      blit memory start (first ++ second) := by
  funext address
  by_cases below : address < start + first.length
  · rw [blit_below _ _ below]
    by_cases before : address < start
    · rw [blit_below _ _ before, blit_below _ _ before]
    · obtain ⟨index, rfl⟩ := Nat.exists_eq_add_of_le (Nat.le_of_not_lt before)
      have inFirst : index < first.length := by omega
      have inBoth : index < (first ++ second).length := by simp; omega
      rw [blit_inside _ _ _ inFirst, blit_inside _ _ _ inBoth, List.getElem_append_left inFirst]
  · obtain ⟨index, rfl⟩ := Nat.exists_eq_add_of_le (Nat.le_of_not_lt below)
    by_cases inside : index < second.length
    · have inBoth : first.length + index < (first ++ second).length := by simp; omega
      rw [blit_inside _ _ _ inside, Nat.add_assoc, blit_inside _ _ _ inBoth]
      simp
    · rw [blit_above _ _ (by omega), blit_above _ _ (by omega),
        blit_above _ _ (by simp only [List.length_append]; omega)]

/-- A store decides its own range, whatever was there. -/
theorem blit_covers {memory other : Nat → α} {start : Nat} {bytes : List α}
    (outside : ∀ address, ¬(start ≤ address ∧ address < start + bytes.length) →
      memory address = other address) :
    blit memory start bytes = blit other start bytes := by
  funext address
  by_cases inside : start ≤ address ∧ address < start + bytes.length
  · obtain ⟨index, rfl⟩ := Nat.exists_eq_add_of_le inside.1
    have bound : index < bytes.length := by omega
    rw [blit_inside memory start bytes bound, blit_inside other start bytes bound]
  · have same := outside address inside
    by_cases below : address < start
    · rw [blit_below memory bytes below, blit_below other bytes below, same]
    · rw [blit_above memory bytes (by omega), blit_above other bytes (by omega), same]

theorem blit_take_succ (memory : Nat → α) (start : Nat) {bytes : List α} {index : Nat} {byte : α}
    (here : bytes[index]? = some byte) :
    blit (blit memory start (bytes.take index)) (start + index) [byte] =
      blit memory start (bytes.take (index + 1)) := by
  obtain ⟨bound, found⟩ := List.getElem?_eq_some_iff.mp here
  have reached : (bytes.take index).length = index := by simp; omega
  have grown : bytes.take (index + 1) = bytes.take index ++ [byte] := by
    rw [List.take_add_one, here]
    rfl
  have stored := blit_append memory start (bytes.take index) [byte]
  rw [reached] at stored
  rw [stored, grown]

theorem copyForward_apply (memory : Nat → α) {target source : Nat} (down : target ≤ source)
    (length address : Nat) :
    copyForward memory target source length address =
      if target ≤ address ∧ address < target + length then
        memory (source + (address - target))
      else memory address := by
  induction length generalizing memory target source with
  | zero =>
      have empty : ¬(target ≤ address ∧ address < target + 0) := by omega
      simp only [copyForward, empty, if_false]
  | succ length ih =>
      rw [copyForward, ih _ (by omega)]
      by_cases first : address = target
      · subst address
        have skipped : ¬(target + 1 ≤ target ∧ target < target + 1 + length) := by omega
        have inside : target ≤ target ∧ target < target + (length + 1) := by omega
        simp only [skipped, inside, and_self, if_true, if_false, Nat.sub_self, Nat.add_zero]
      · by_cases later : target + 1 ≤ address ∧ address < target + 1 + length
        · have inside : target ≤ address ∧ address < target + (length + 1) := by omega
          have offset : source + 1 + (address - (target + 1)) = source + (address - target) := by
            omega
          have unread : source + (address - target) ≠ target := by omega
          simp only [later, inside, and_self, if_true, offset, unread, if_false]
        · have outside : ¬(target ≤ address ∧ address < target + (length + 1)) := by omega
          simp only [later, outside, if_false, first]

theorem apart_iff {first second length : Nat} (order : first ≤ second) :
    Apart first second length ↔ length ≤ second - first := by
  constructor
  · intro apart
    by_contra short
    exact apart second ⟨by omega, by omega⟩
  · intro short address both
    omega

theorem copyInOrder_apply {memory : Nat → α} {target source length : Nat} {order : List Nat}
    (apart : Apart target source length) (inside : ∀ index ∈ order, index < length)
    (address : Nat) :
    copyInOrder memory target source order address =
      if target ≤ address ∧ address - target ∈ order then memory (source + (address - target))
      else memory address := by
  induction order generalizing memory with
  | nil => simp [copyInOrder]
  | cons index rest ih =>
      have here : index < length := inside index (by simp)
      have later (other : Nat) (member : other ∈ rest) : other < length :=
        inside other (by simp [member])
      rw [copyInOrder, ih later]
      by_cases copied : target ≤ address ∧ address - target ∈ rest
      · have bound := later _ copied.2
        have unread : source + (address - target) ≠ target + index := by
          intro same
          exact apart (target + index) ⟨by omega, by omega⟩
        have listed : target ≤ address ∧ address - target ∈ index :: rest :=
          ⟨copied.1, List.mem_cons_of_mem _ copied.2⟩
        rw [if_pos copied, if_pos listed, if_neg unread]
      · rw [if_neg copied]
        by_cases first : address = target + index
        · have listed : target ≤ address ∧ address - target ∈ index :: rest := by
            refine ⟨by omega, ?_⟩
            have same : address - target = index := by omega
            simp [same]
          have same : address - target = index := by omega
          rw [if_pos first, if_pos listed, same]
        · have unlisted : ¬(target ≤ address ∧ address - target ∈ index :: rest) := by
            rintro ⟨low, member⟩
            rcases List.mem_cons.mp member with same | other
            · omega
            · exact copied ⟨low, other⟩
          rw [if_neg first, if_neg unlisted]

theorem copyInOrder_eq_copyForward {memory : Nat → α} {target source length : Nat}
    {order : List Nat} (down : target ≤ source) (apart : Apart target source length)
    (all : order.Perm (List.range length)) :
    copyInOrder memory target source order = copyForward memory target source length := by
  have member (index : Nat) : index ∈ order ↔ index < length := by
    rw [all.mem_iff, List.mem_range]
  funext address
  rw [copyInOrder_apply apart fun index listed => (member index).mp listed,
    copyForward_apply memory down]
  refine if_congr ?_ rfl rfl
  rw [member]
  omega

end ByteMemory
