import LearnK.Lib.CInt
import LearnK.Lib.CString

/-! Printing into a buffer: single characters through a moving pointer and `snprintf`, with every
index stored to on record.  Indices count from the start of the buffer and nothing bounds them. -/

namespace Printf

open ByteMemory CInt CString Function

structure Output where
  memory : Int → UInt8
  cursor : Int
  stores : List Int

namespace Output

def store (out : Output) (index : Int) (char : UInt8) : Output :=
  { out with memory := update out.memory index char, stores := index :: out.stores }

def storeAll (out : Output) (start : Int) : List UInt8 → Output
  | [] => out
  | char :: rest => (out.store start char).storeAll (start + 1) rest

def putc (out : Output) (char : UInt8) : Output :=
  { out.store out.cursor char with cursor := out.cursor + 1 }

def intMax : Int := 2147483647

/-- What `snprintf` stores; `size` is a `size_t`, and the kernel refuses one above `INT_MAX`. -/
def printed (size : Int) (text : List UInt8) : List UInt8 :=
  if size > intMax ∨ size = 0 then [] else text.take (size.toNat - 1) ++ [0]

def printedLength (size : Int) (text : List UInt8) : Int :=
  if size > intMax then 0 else toS32 text.length

def snprintf (out : Output) (size : Int) (text : List UInt8) : Output × Int :=
  (out.storeAll out.cursor (printed size text), printedLength size text)

def bytes (out : Output) (index : Nat) : UInt8 := out.memory index

def Inside (out : Output) (limit : Int) : Prop := ∀ index ∈ out.stores, 0 ≤ index ∧ index < limit

def cString (out : Output) (limit : Nat) : Option (List UInt8) :=
  (nulIndex out.bytes limit 0).map (slice out.bytes 0)

variable {out : Output} {text chars : List UInt8} {limit : Nat}

@[simp] theorem storeAll_cursor (start : Int) : (out.storeAll start chars).cursor = out.cursor := by
  induction chars generalizing out start with
  | nil => rfl
  | cons char rest ih => exact ih (start + 1)

theorem mem_storeAll_stores {index start : Int} :
    index ∈ (out.storeAll start chars).stores ↔
      index ∈ out.stores ∨ start ≤ index ∧ index < start + chars.length := by
  induction chars generalizing out start with
  | nil =>
      have nothing : ¬(start ≤ index ∧ index < start + ([] : List UInt8).length) := by
        rw [List.length_nil]
        omega
      rw [storeAll, or_iff_left nothing]
  | cons char rest ih =>
      rw [storeAll, ih, store, List.mem_cons, List.length_cons]
      grind

theorem store_bytes (start : Nat) (char : UInt8) :
    (out.store start char).bytes = blit out.bytes start [char] := by
  funext index
  by_cases here : index = start
  · subst here
    simp [bytes, store, blit]
  · have apart : (index : Int) ≠ start := by omega
    have kept : (out.store start char).bytes index = out.bytes index := update_of_ne apart _ _
    rw [kept]
    by_cases below : index < start
    · exact (blit_below out.bytes _ below).symm
    · exact (blit_above out.bytes _ (by simp; omega)).symm

theorem storeAll_bytes (start : Nat) :
    (out.storeAll start chars).bytes = blit out.bytes start chars := by
  induction chars generalizing out start with
  | nil => exact (blit_nil out.bytes start).symm
  | cons char rest ih =>
      have onwards := @ih (out.store start char) (start + 1)
      rw [store_bytes] at onwards
      have joined := blit_append out.bytes start [char] rest
      exact onwards.trans joined

theorem Inside.storeAll {start : Int} (inside : out.Inside limit) (low : 0 ≤ start)
    (high : start + chars.length ≤ limit) : (out.storeAll start chars).Inside limit := by
  intro index member
  rcases mem_storeAll_stores.mp member with old | new
  · exact inside index old
  · omega

theorem Inside.store {index : Int} (inside : out.Inside limit) (low : 0 ≤ index)
    (high : index < limit) (char : UInt8) : (out.store index char).Inside limit := by
  intro other member
  rcases List.mem_cons.mp member with rfl | old
  · exact ⟨low, high⟩
  · exact inside other old

theorem Inside.putc (inside : out.Inside limit) (low : 0 ≤ out.cursor) (high : out.cursor < limit)
    (char : UInt8) : (out.putc char).Inside limit := inside.store low high char

theorem printed_length_le {size : Int} (nonneg : 0 ≤ size) :
    ((printed size text).length : Int) ≤ size := by
  unfold printed
  split
  · simpa using nonneg
  · rw [List.length_append, List.length_take, List.length_singleton]
    omega

theorem Inside.snprintf (inside : out.Inside limit) (low : 0 ≤ out.cursor)
    (high : out.cursor ≤ limit) : (out.snprintf (limit - out.cursor) text).1.Inside limit := by
  have short := @printed_length_le text (limit - out.cursor) (by omega)
  exact inside.storeAll low (by omega)

structure Written (out : Output) (text : List UInt8) : Prop where
  cursor : out.cursor = text.length
  bytes : slice out.bytes 0 text.length = text

theorem Written.storeAll (written : out.Written text) (chars : List UInt8) :
    slice (out.storeAll out.cursor chars).bytes 0 (text.length + chars.length) = text ++ chars := by
  rw [written.cursor, storeAll_bytes, slice_blit_after, written.bytes]

theorem Written.putc (written : out.Written text) (char : UInt8) :
    (out.putc char).Written (text ++ [char]) := by
  refine ⟨?_, ?_⟩
  · rw [Output.putc, List.length_append, List.length_singleton, written.cursor]
    rfl
  · rw [List.length_append]
    exact written.storeAll [char]

theorem Written.snprintf (written : out.Written text) (room : text.length + chars.length < limit)
    (small : limit ≤ 2147483647) :
    ({ (out.snprintf (limit - out.cursor) chars).1 with
      cursor := out.cursor + (out.snprintf (limit - out.cursor) chars).2 } : Output).Written
        (text ++ chars) := by
  have start := written.cursor
  have size : ¬(limit - out.cursor > intMax) := by
    unfold intMax
    omega
  have whole : printed (limit - out.cursor) chars = chars ++ [0] := by
    have positive : ¬(limit - out.cursor > intMax ∨ limit - out.cursor = 0) := by omega
    rw [printed, if_neg positive, List.take_of_length_le (by omega)]
  have length : printedLength (limit - out.cursor) chars = chars.length := by
    rw [printedLength, if_neg size]
    unfold toS32
    omega
  refine ⟨?_, ?_⟩
  · simp only [Output.snprintf, length, List.length_append]
    omega
  · have stored := written.storeAll (chars ++ [0])
    rw [List.length_append, ← Nat.add_assoc, slice_append, ← List.append_assoc] at stored
    rw [List.length_append]
    simp only [Output.snprintf, whole]
    exact List.append_inj_left stored (by simp)

theorem cString_eq (noNul : 0 ∉ text) (room : text.length < limit)
    (held : slice out.bytes 0 (text.length + 1) = text ++ [0]) : out.cString limit = some text := by
  rw [slice_append] at held
  obtain ⟨front, last⟩ := List.append_inj held (by simp)
  have nul : out.bytes (0 + text.length) = 0 := by
    simpa [slice] using last
  have scanned : nulIndex out.bytes limit 0 = some (0 + text.length) := by
    refine nulIndex_eq ?_ nul room
    intro index bound zero
    have stored := slice_getElem? out.bytes 0 text.length index bound
    rw [front, zero] at stored
    exact noNul (List.mem_of_getElem? stored)
  rw [cString, scanned, Option.map_some, Nat.zero_add, front]

end Output

end Printf
