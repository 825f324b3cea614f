import LearnK.Lib.ByteMemory
import LearnK.Lib.Pattern

/-! C strings in linear memory: the NUL scan of `strlen`, the bytes that `strncpy` and `strncat`
store, and the comparisons and searches of the kernel's string library. -/

namespace CString

open ByteMemory Pattern

structure Text where
  bytes : List UInt8
  noNul : ∀ byte ∈ bytes, byte ≠ 0

def Text.strlen (text : Text) : Nat := text.bytes.length

def nulIndex (memory : Nat → UInt8) : Nat → Nat → Option Nat
  | 0, _ => none
  | fuel + 1, start => if memory start = 0 then some start else nulIndex memory fuel (start + 1)

def strncpyBytes (text : Text) (count : Nat) : List UInt8 :=
  text.bytes.take count ++ List.replicate (count - text.strlen) 0

/-- What `strncat` stores from the NUL of its destination on. -/
def strncatBytes (text : Text) (count : Nat) : List UInt8 :=
  if count = 0 then [] else text.bytes.take count ++ [0]

def Text.chars (text : Text) : List UInt8 := text.bytes ++ [0]

/-- Which bytes stand behind a pointer; `none` is an address that may not be read. -/
def Window : Type := Int → Option UInt8

/-- `strncmp(cs, ct, count)`, with `ct` as the characters left of it. -/
def strncmp (cs : Window) : Int → List UInt8 → Nat → Option Int
  | _, _, 0 => some 0
  | _, [], _ + 1 => none
  | start, c2 :: ct, count + 1 => (cs start).bind fun c1 =>
      if c1 ≠ c2 then some (if c1 < c2 then -1 else 1)
      else if c1 = 0 then some 0
      else strncmp cs (start + 1) ct count

def memcmp (cs : Window) : Int → List UInt8 → Option Int
  | _, [] => some 0
  | start, c2 :: ct => (cs start).bind fun c1 =>
      if c1 ≠ c2 then some (if c1 < c2 then -1 else 1) else memcmp cs (start + 1) ct

/-- The characters that `strncpy(dest, src, count)` stores. -/
def strncpy (src : Window) : Int → Nat → Option (List UInt8)
  | _, 0 => some []
  | start, count + 1 => (src start).bind fun char =>
      if char = 0 then some (List.replicate (count + 1) 0)
      else (strncpy src (start + 1) count).map (char :: ·)

def strlen (s : Window) : Nat → Int → Option Nat
  | 0, _ => none
  | fuel + 1, start => (s start).bind fun char =>
      if char = 0 then some 0 else (strlen s fuel (start + 1)).map (· + 1)

def strstrLoop (s1 : Window) (s2 : List UInt8) : Nat → Int → Option (Option Int)
  | 0, _ => some none
  | left + 1, start => (memcmp s1 start s2).bind fun order =>
      if order = 0 then some (some start) else strstrLoop s1 s2 left (start + 1)

/-- `strstr(s1, s2)`: NULL is the inner `none`. -/
def strstr (s1 : Window) (fuel : Nat) (s2 : Text) : Option (Option Int) :=
  if s2.strlen = 0 then some (some 0)
  else (strlen s1 fuel 0).bind fun l1 => strstrLoop s1 s2.bytes (l1 + 1 - s2.strlen) 0

theorem nulIndex_eq {memory : Nat → UInt8} {start length fuel : Nat}
    (noNul : ∀ index < length, memory (start + index) ≠ 0) (nul : memory (start + length) = 0)
    (enough : length < fuel) : nulIndex memory fuel start = some (start + length) := by
  induction length generalizing start fuel with
  | zero =>
      cases fuel with
      | zero => omega
      | succ fuel =>
          simp only [Nat.add_zero] at nul
          simp [nulIndex, nul]
  | succ length ih =>
      cases fuel with
      | zero => omega
      | succ fuel =>
          have first : memory start ≠ 0 := by simpa using noNul 0 (by omega)
          have rest := @ih (start + 1) fuel
            (fun index bound => by
              have shifted := noNul (index + 1) (by omega)
              rwa [← Nat.add_assoc, Nat.add_right_comm] at shifted)
            (by rwa [← Nat.add_assoc, Nat.add_right_comm] at nul) (by omega)
          simp only [nulIndex, first, if_false]
          rw [rest]
          congr 1
          omega

theorem nulIndex_some {memory : Nat → UInt8} {start length fuel found : Nat}
    (noNul : ∀ index < length, memory (start + index) ≠ 0) (nul : memory (start + length) = 0)
    (scanned : nulIndex memory fuel start = some found) : found = start + length := by
  induction length generalizing start fuel with
  | zero =>
      cases fuel with
      | zero => simp [nulIndex] at scanned
      | succ fuel =>
          simp only [Nat.add_zero] at nul
          simp only [nulIndex, nul, if_true, Option.some.injEq] at scanned
          omega
  | succ length ih =>
      cases fuel with
      | zero => simp [nulIndex] at scanned
      | succ fuel =>
          have first : memory start ≠ 0 := by simpa using noNul 0 (by omega)
          simp only [nulIndex, first, if_false] at scanned
          have rest := ih (fun index bound => by
              have shifted := noNul (index + 1) (by omega)
              rwa [← Nat.add_assoc, Nat.add_right_comm] at shifted)
            (by rwa [← Nat.add_assoc, Nat.add_right_comm] at nul) scanned
          omega

theorem strncpyBytes_all (text : Text) : strncpyBytes text text.strlen = text.bytes := by
  simp [strncpyBytes, Text.strlen]

theorem strncatBytes_all {text : Text} {count : Nat} (room : text.strlen < count) :
    strncatBytes text count = text.bytes ++ [0] := by
  have positive : count ≠ 0 := by omega
  have whole : text.bytes.take count = text.bytes :=
    List.take_of_length_le (Nat.le_of_lt room)
  simp [strncatBytes, positive, whole]

structure Terminated (memory : Nat → UInt8) (length : Nat) : Prop where
  noNul : ∀ index < length, memory index ≠ 0
  nul : memory length = 0

theorem terminated_blit {memory : Nat → UInt8} {start : Nat}
    (noNul : ∀ index < start, memory index ≠ 0) (text : Text) :
    Terminated (blit memory start (text.bytes ++ [0])) (start + text.strlen) where
  noNul index bound := by
    by_cases below : index < start
    · rw [blit_below _ _ below]
      exact noNul index below
    · obtain ⟨offset, rfl⟩ := Nat.exists_eq_add_of_le (Nat.le_of_not_lt below)
      have inText : offset < text.bytes.length := by
        have length : text.strlen = text.bytes.length := rfl
        omega
      rw [blit_inside _ _ _ (by simp; omega), List.getElem_append_left inText]
      exact text.noNul _ (List.getElem_mem inText)
  nul := by
    rw [Text.strlen, blit_inside _ _ _ (by simp)]
    simp

theorem terminated_restore {memory : Nat → UInt8} {length : Nat} (terminated : Terminated memory length) :
    Terminated (blit memory length [0]) length where
  noNul index bound := by
    rw [blit_below _ _ bound]
    exact terminated.noNul index bound
  nul := by simp [blit]

theorem terminated_congr {first second : Nat → UInt8} {length : Nat}
    (terminated : Terminated first length) (same : ∀ index ≤ length, second index = first index) :
    Terminated second length where
  noNul index bound := by
    rw [same index (by omega)]
    exact terminated.noNul index bound
  nul := by
    rw [same length (by omega)]
    exact terminated.nul

theorem nulIndex_first {memory : Nat → UInt8} {fuel start found : Nat}
    (scanned : nulIndex memory fuel start = some found) :
    start ≤ found ∧ found < start + fuel ∧ memory found = 0 ∧
      ∀ index, start ≤ index → index < found → memory index ≠ 0 := by
  induction fuel generalizing start with
  | zero => simp [nulIndex] at scanned
  | succ fuel ih =>
      rw [nulIndex] at scanned
      by_cases nul : memory start = 0
      · rw [if_pos nul, Option.some.injEq] at scanned
        subst found
        exact ⟨Nat.le_refl _, by omega, nul, fun index low high => by omega⟩
      · rw [if_neg nul] at scanned
        obtain ⟨low, high, stop, before⟩ := ih scanned
        refine ⟨by omega, by omega, stop, fun index lower upper => ?_⟩
        by_cases first : index = start
        · rw [first]
          exact nul
        · exact before index (by omega) upper

theorem nulIndex_found {memory : Nat → UInt8} {fuel start nul : Nat} (low : start ≤ nul)
    (high : nul < start + fuel) (stop : memory nul = 0) :
    ∃ found, nulIndex memory fuel start = some found := by
  induction fuel generalizing start with
  | zero => omega
  | succ fuel ih =>
      rw [nulIndex]
      by_cases here : memory start = 0
      · exact ⟨start, if_pos here⟩
      · rw [if_neg here]
        have later : start ≠ nul := fun same => here (same ▸ stop)
        exact ih (by omega) (by omega)

def Reads (window : Window) (start : Int) (chars : List UInt8) : Prop :=
  ∀ (index : Nat) (char : UInt8), chars[index]? = some char → window (start + index) = some char

theorem Reads.head {window : Window} {start : Int} {char : UInt8} {chars : List UInt8}
    (reads : Reads window start (char :: chars)) : window start = some char := by
  simpa using reads 0 char (by simp)

theorem Reads.tail {window : Window} {start : Int} {char : UInt8} {chars : List UInt8}
    (reads : Reads window start (char :: chars)) : Reads window (start + 1) chars := by
  intro index other found
  have shifted := reads (index + 1) other (by simpa using found)
  have place : start + 1 + (index : Int) = start + (index + 1 : Nat) := by omega
  rwa [place]

theorem Reads.drop {window : Window} {start : Int} {chars : List UInt8}
    (reads : Reads window start chars) (offset : Nat) :
    Reads window (start + offset) (chars.drop offset) := by
  intro index char found
  rw [List.getElem?_drop] at found
  have place : start + (offset : Int) + index = start + (offset + index : Nat) := by omega
  rw [place]
  exact reads _ char found

theorem Reads.take {window : Window} {start : Int} {chars : List UInt8}
    (reads : Reads window start chars) (count : Nat) : Reads window start (chars.take count) := by
  intro index char found
  rw [List.getElem?_take] at found
  split_ifs at found
  exact reads index char found

theorem Reads.append_left {window : Window} {start : Int} {first second : List UInt8}
    (reads : Reads window start (first ++ second)) : Reads window start first := by
  have front := reads.take first.length
  rwa [List.take_left] at front

theorem strncmp_eq_zero_iff {cs : Window} {start : Int} {chars ct : List UInt8}
    (reads : Reads cs start chars) (long : chars.length ≤ ct.length)
    (noNul : ∀ char ∈ ct.take chars.length, char ≠ 0) :
    ∃ order, strncmp cs start ct chars.length = some order ∧
      (order = 0 ↔ chars = ct.take chars.length) := by
  induction chars generalizing start ct with
  | nil => exact ⟨0, by simp [strncmp], by simp⟩
  | cons c1 chars ih =>
      cases ct with
      | nil => simp at long
      | cons c2 ct =>
          simp only [List.length_cons, List.take_succ_cons, List.mem_cons, forall_eq_or_imp]
            at long noNul ⊢
          rw [strncmp, reads.head, Option.bind_some]
          by_cases same : c1 = c2
          · subst same
            obtain ⟨order, compared, zero⟩ := ih reads.tail (by omega) noNul.2
            exact ⟨order, by simp [noNul.1, compared], by simpa using zero⟩
          · refine ⟨if c1 < c2 then -1 else 1, by simp [same], ?_⟩
            simp only [List.cons.injEq, same, false_and, iff_false]
            split <;> simp

theorem memcmp_eq_zero_iff {cs : Window} {start : Int} {chars ct : List UInt8}
    (reads : Reads cs start chars) (same : chars.length = ct.length) :
    ∃ order, memcmp cs start ct = some order ∧ (order = 0 ↔ chars = ct) := by
  induction chars generalizing start ct with
  | nil =>
      obtain rfl := List.eq_nil_of_length_eq_zero same.symm
      exact ⟨0, rfl, by simp⟩
  | cons c1 chars ih =>
      cases ct with
      | nil => simp at same
      | cons c2 ct =>
          rw [memcmp, reads.head, Option.bind_some]
          by_cases equal : c1 = c2
          · subst equal
            obtain ⟨order, compared, zero⟩ := ih reads.tail (by simpa using same)
            exact ⟨order, by simp [compared], by simpa using zero⟩
          · refine ⟨if c1 < c2 then -1 else 1, by simp [equal], ?_⟩
            simp only [List.cons.injEq, equal, false_and, iff_false]
            split <;> simp

theorem strncpy_eq {src : Window} {start : Int} {chars : List UInt8} (reads : Reads src start chars)
    (noNul : ∀ char ∈ chars, char ≠ 0) : strncpy src start chars.length = some chars := by
  induction chars generalizing start with
  | nil => rfl
  | cons char chars ih =>
      simp only [List.mem_cons, forall_eq_or_imp] at noNul
      simp [strncpy, reads.head, noNul.1, ih reads.tail noNul.2]

theorem strlen_eq {s : Window} {start : Int} {chars : List UInt8} {fuel : Nat}
    (reads : Reads s start (chars ++ [0])) (noNul : ∀ char ∈ chars, char ≠ 0)
    (enough : chars.length < fuel) : strlen s fuel start = some chars.length := by
  induction chars generalizing start fuel with
  | nil =>
      obtain ⟨fuel, rfl⟩ : ∃ rest, fuel = rest + 1 := ⟨fuel - 1, by simp at enough; omega⟩
      have nul : s start = some 0 := Reads.head reads
      simp [strlen, nul]
  | cons char chars ih =>
      simp only [List.length_cons] at enough
      obtain ⟨fuel, rfl⟩ : ∃ rest, fuel = rest + 1 := ⟨fuel - 1, by omega⟩
      simp only [List.mem_cons, forall_eq_or_imp] at noNul
      have here : s start = some char := Reads.head reads
      have later : Reads s (start + 1) (chars ++ [0]) := Reads.tail reads
      have rest := @ih (start + 1) fuel later noNul.2 (by omega)
      simp [strlen, here, noNul.1, rest]

theorem strncmp_occursAt {cs : Window} {content ct : List UInt8} {offset count : Nat}
    (reads : Reads cs 0 content) (fits : offset + count ≤ content.length) (long : count ≤ ct.length)
    (noNul : ∀ char ∈ ct.take count, char ≠ 0) :
    ∃ order, strncmp cs offset ct count = some order ∧
      (order = 0 ↔ OccursAt content (ct.take count) offset) := by
  have length : ((content.drop offset).take count).length = count := by
    rw [List.length_take, List.length_drop]
    omega
  have seen : Reads cs offset ((content.drop offset).take count) := by
    have shifted := (reads.drop offset).take count
    rwa [Int.zero_add] at shifted
  obtain ⟨order, compared, zero⟩ := @strncmp_eq_zero_iff cs offset _ ct seen (by omega)
    (by rwa [length])
  rw [length] at compared zero
  have whole : (ct.take count).length = count := by
    rw [List.length_take]
    omega
  refine ⟨order, compared, zero.trans ?_⟩
  rw [OccursAt, whole]
  exact ⟨fun same => ⟨fits, same⟩, fun found => found.2⟩

theorem memcmp_occursAt {cs : Window} {content ct : List UInt8} {offset : Nat}
    (reads : Reads cs 0 content) (fits : offset + ct.length ≤ content.length) :
    ∃ order, memcmp cs offset ct = some order ∧ (order = 0 ↔ OccursAt content ct offset) := by
  have length : ((content.drop offset).take ct.length).length = ct.length := by
    rw [List.length_take, List.length_drop]
    omega
  have seen : Reads cs offset ((content.drop offset).take ct.length) := by
    have shifted := (reads.drop offset).take ct.length
    rwa [Int.zero_add] at shifted
  obtain ⟨order, compared, zero⟩ := memcmp_eq_zero_iff seen length
  exact ⟨order, compared, zero.trans ⟨fun same => ⟨fits, same⟩, fun found => found.2⟩⟩

theorem strstrLoop_isSome_iff {s1 : Window} {content s2 : List UInt8} {left offset : Nat}
    (reads : Reads s1 0 content) (rounds : left = content.length + 1 - s2.length - offset) :
    ∃ found, strstrLoop s1 s2 left offset = some found ∧
      (found.isSome = true ↔ ∃ place, offset ≤ place ∧ OccursAt content s2 place) := by
  induction left generalizing offset with
  | zero =>
      refine ⟨none, rfl, iff_of_false (by simp) ?_⟩
      rintro ⟨place, later, fits, -⟩
      omega
  | succ left ih =>
      obtain ⟨order, compared, zero⟩ := @memcmp_occursAt s1 content s2 offset reads (by omega)
      rw [strstrLoop, compared, Option.bind_some]
      by_cases match0 : order = 0
      · refine ⟨some offset, by simp [match0], iff_of_true (by simp) ?_⟩
        exact ⟨offset, Nat.le_refl _, zero.mp match0⟩
      · obtain ⟨found, searched, present⟩ := @ih (offset + 1) (by omega)
        refine ⟨found, (if_neg match0).trans searched, present.trans ?_⟩
        constructor
        · rintro ⟨place, later, occurs⟩
          exact ⟨place, by omega, occurs⟩
        · rintro ⟨place, later, occurs⟩
          have apart : place ≠ offset := fun same => match0 (zero.mpr (same ▸ occurs))
          exact ⟨place, by omega, occurs⟩

theorem strstr_isSome_iff {s1 : Window} {content : List UInt8} {fuel : Nat} {s2 : Text}
    (reads : Reads s1 0 (content ++ [0])) (noNul : ∀ char ∈ content, char ≠ 0)
    (enough : content.length < fuel) :
    ∃ found, strstr s1 fuel s2 = some found ∧
      (found.isSome = true ↔ ∃ place, OccursAt content s2.bytes place) := by
  by_cases empty : s2.strlen = 0
  · refine ⟨some 0, by simp [strstr, empty], iff_of_true (by simp) ⟨0, ?_⟩⟩
    obtain nothing := List.eq_nil_of_length_eq_zero empty
    simp [OccursAt, nothing]
  · obtain ⟨found, searched, present⟩ := @strstrLoop_isSome_iff s1 content s2.bytes
      (content.length + 1 - s2.strlen) 0 reads.append_left rfl
    refine ⟨found, ?_, by simpa using present⟩
    rw [strstr, if_neg empty, strlen_eq reads noNul enough]
    exact searched

end CString
