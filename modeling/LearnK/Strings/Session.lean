import Mathlib.Data.List.Infix
import Mathlib.Data.List.TakeWhile
import LearnK.Lib.DataType
import LearnK.Strings.Joining

/-! Everything that a caller of the strings can do, against plain texts: any number of strings, made,
joined, looked at and freed in any order. -/

namespace LearnK.Strings

open ByteMemory CInt CString DataType Pattern

structure NewCap where
  kmallocView : Bool
  kmallocStr : Option (Nat → UInt8)
  str : Text
  cap : UInt64

structure Joined where
  krealloc : Option (Nat → UInt8)
  str : Text

inductive Query
  | index (str : Text)
  | lastIndex (str : Text)
  | len
  | char (kmalloc : Option (Nat → UInt8))
  | hasPrefix (str : Text)
  | hasSuffix (suffix : Text)
  | hasSubstring (substr : Text)
  | substring (kmalloc : Option (Nat → UInt8)) (start stop : Int32)
  | print

inductive Answer
  | int (value : Int)
  | bool (value : Bool)
  | null
  | str (bytes : List UInt8)
  deriving DecidableEq, Repr

def readBack : Option Buffer → Option Answer
  | none => some .null
  | some buffer => buffer.string.map .str

def stringPrint (s : StringView) : Option (List UInt8) := s.str.bind Buffer.string

def stringQuery (s : StringView) : Query → Option Answer
  | .index str => (stringIndex s str).map .int
  | .lastIndex str => (stringLastIndex s str).map .int
  | .len => some (.int (stringLen s))
  | .char kmalloc => (stringChar kmalloc s).bind readBack
  | .hasPrefix str => (stringHasPrefix s str).map .bool
  | .hasSuffix suffix => (stringHasSuffix s suffix).map .bool
  | .hasSubstring substr => (stringHasSubstring s substr).map .bool
  | .substring kmalloc start stop => (stringSubstring kmalloc s start stop).bind readBack
  | .print => (stringPrint s).map .str

def views : Operations NewCap Joined Query Answer StringView where
  make new := some (stringNewCap new.kmallocView new.kmallocStr new.str new.cap)
  change s joined := (stringJoin 4097 joined.krealloc s joined.str).toOption
  ask := stringQuery

/-- What a caller may take a string for: its bytes. -/
def textQuery (text : List UInt8) : Query → Answer
  | .index str => .int (firstOccurrence text str.bytes)
  | .lastIndex str => .int (lastOccurrence text str.bytes)
  | .len => .int text.length
  | .char kmalloc => if kmalloc.isSome then .str text else .null
  | .hasPrefix str => .bool (decide (str.bytes <+: text))
  | .hasSuffix suffix => .bool (decide (suffix.bytes <:+ text))
  | .hasSubstring substr => .bool (decide (substr.bytes <:+: text))
  | .substring kmalloc start stop =>
      if 0 ≤ start.toInt ∧ start.toInt < stop.toInt ∧ stop.toInt ≤ text.length ∧ kmalloc.isSome then
        .str (text.extract start.toInt.toNat stop.toInt.toNat)
      else .null
  | .print => .str text

/-- The lengths of patterns pass through an `int`. -/
def Query.patternLength : Query → Nat
  | .index str | .lastIndex str | .hasPrefix str | .hasSuffix str | .hasSubstring str => str.strlen
  | .len | .char _ | .substring _ _ _ | .print => 0

/-- Texts up to 4096 bytes.  A capacity that leaves no room for the NUL is not allowed, nor is a
join whose `krealloc` fails. -/
def texts : Operations NewCap Joined Query Answer (List UInt8) where
  make new :=
    if new.str.strlen > 4096 then none
    else if new.cap.toNat < new.str.strlen ∨ new.kmallocView = false ∨ new.kmallocStr = none then
      some none
    else if new.str.strlen = new.cap.toNat then none
    else some (some new.str.bytes)
  change text joined :=
    if text.length + joined.str.strlen ≤ 4096 ∧ joined.krealloc.isSome then
      some (text ++ joined.str.bytes)
    else none
  ask text query := if query.patternLength < 4294967296 then some (textQuery text query) else none

structure StringView.HoldsText (s : StringView) (text : List UInt8) : Prop where
  wellFormed : s.WellFormed
  small : s.len ≤ 4096
  content : s.content = text

section

variable {s : StringView} {text : List UInt8}

theorem StringView.HoldsText.legible (holds : s.HoldsText text) : s.Legible :=
  holds.wellFormed.legible (Nat.lt_of_le_of_lt holds.small (by decide))

theorem StringView.HoldsText.length (holds : s.HoldsText text) : text.length = s.len := by
  rw [← holds.content, content_length holds.legible]

theorem stringPrint_content (holds : s.HoldsText text) : stringPrint s = some text := by
  obtain ⟨buffer, held, size, terminated⟩ := holds.wellFormed.buffer
  have room := holds.wellFormed.room
  have scanned : nulIndex buffer.data buffer.size 0 = some (0 + s.len) :=
    nulIndex_eq (by simpa using terminated.noNul) (by simpa using terminated.nul) (by omega)
  have content := holds.content
  rw [StringView.content, held, Option.elim_some] at content
  rw [stringPrint, held, Option.bind_some, Buffer.string, scanned, Option.map_some, Nat.zero_add, content]

theorem eq_decide {result : Bool} {Property : Prop} [Decidable Property]
    (found : result = true ↔ Property) : result = decide Property := by
  rw [Bool.eq_iff_iff, decide_eq_true_iff]
  exact found

theorem stringQuery_text (holds : s.HoldsText text) (query : Query)
    (small : query.patternLength < 4294967296) : stringQuery s query = some (textQuery text query) := by
  have legible := holds.legible
  have content := holds.content
  cases query with
  | index str =>
      obtain ⟨result, indexed, first⟩ := stringIndex_first legible str
      rw [compared_eq small, content] at first
      rw [stringQuery, indexed, textQuery, first.unique (firstOccurrence_isFirst text str.bytes)]
      rfl
  | lastIndex str =>
      obtain ⟨result, indexed, last⟩ := stringLastIndex_last legible str
      rw [compared_eq small, content] at last
      rw [stringQuery, indexed, textQuery, last.unique (lastOccurrence_isLast text str.bytes)]
      rfl
  | len =>
      have bound := holds.small
      have length : stringLen s = text.length := by
        rw [stringLen, holds.length, toS32]
        omega
      rw [stringQuery, length, textQuery]
  | char kmalloc =>
      cases kmalloc with
      | none => rfl
      | some garbage =>
          obtain ⟨buffer, copied, same⟩ := stringChar_content legible garbage
          rw [stringQuery, copied, Option.bind_some, readBack, same, content]
          rfl
  | hasPrefix str =>
      obtain ⟨result, began, found⟩ := stringHasPrefix_iff legible str
      rw [compared_eq small, content, occursAt_zero_iff] at found
      rw [stringQuery, began, textQuery, eq_decide found]
      rfl
  | hasSuffix suffix =>
      obtain ⟨result, ended, found⟩ := stringHasSuffix_iff legible suffix
      rw [compared_eq small, content, occursAt_end_iff] at found
      rw [stringQuery, ended, textQuery, eq_decide found]
      rfl
  | hasSubstring substr =>
      obtain ⟨result, searched, found⟩ := stringHasSubstring_iff legible substr
      have inside : (substr.strlen % 2 ^ 32 ≤ s.len ∧ ∃ place, OccursAt s.content substr.bytes place) ↔
          substr.bytes <:+: text := by
        rw [← exists_occursAt_iff, content]
        refine ⟨fun both => both.2, fun present => ⟨?_, present⟩⟩
        obtain ⟨place, fits, -⟩ := present
        have length := holds.length
        have bytes : substr.bytes.length = substr.strlen := rfl
        have modulo := Nat.mod_le substr.strlen (2 ^ 32)
        omega
      rw [inside] at found
      rw [stringQuery, searched, textQuery, eq_decide found]
      rfl
  | substring kmalloc start stop =>
      rw [stringQuery, textQuery]
      cases kmalloc with
      | none =>
          rw [if_neg (by simp), stringSubstring]
          split <;> rfl
      | some garbage =>
          have length := holds.length
          obtain ⟨nonneg, order, inside, buffer, made, same, -⟩ | ⟨outside, refused⟩ :=
            stringSubstring_cases legible garbage start stop
          · rw [if_pos ⟨nonneg, order, by omega, rfl⟩, made, Option.bind_some, readBack, same, content]
            rfl
          · rw [if_neg fun fits => outside ⟨fits.1, fits.2.1, by have bound := fits.2.2.1; omega⟩,
              refused]
            rfl
  | print =>
      rw [stringQuery, stringPrint_content holds, textQuery]
      rfl

end

theorem stringNewCap_holdsText {str : Text} {cap : UInt64} (garbage : Nat → UInt8)
    (small : str.strlen ≤ 4096) (room : str.strlen < cap.toNat) :
    ∃ s, stringNewCap true (some garbage) str cap = some s ∧ s.HoldsText str.bytes := by
  obtain ⟨s, made⟩ : ∃ s, stringNewCap true (some garbage) str cap = some s := by
    have fits : ¬toU64 (toS32 str.strlen) > cap.toNat := by
      unfold toU64 toS32
      omega
    simp [stringNewCap, fits]
  obtain ⟨-, length, -, -, data, held⟩ := stringNewCap_some (by omega) made
  refine ⟨s, made, (stringNewCap_wellFormed_iff (by omega) made).mpr room, by omega, ?_⟩
  have stored := slice_blit_same data 0 (str.bytes ++ [0])
  rw [List.length_append, slice_append] at stored
  rw [StringView.content, held, Option.elim_some, length]
  exact List.append_inj_left' stored rfl

theorem stringNewCap_null {new : NewCap} (small : new.str.strlen ≤ 4096)
    (fails : new.cap.toNat < new.str.strlen ∨ new.kmallocView = false ∨ new.kmallocStr = none) :
    stringNewCap new.kmallocView new.kmallocStr new.str new.cap = none := by
  unfold stringNewCap
  rcases fails with long | view | buffer
  · refine if_pos ?_
    unfold toU64 toS32
    omega
  · simp [view]
  · simp [buffer]

theorem stringJoin_holdsText {s : StringView} {text : List UInt8} (holds : s.HoldsText text)
    (garbage : Nat → UInt8) (str : Text) (total : text.length + str.strlen ≤ 4096) :
    ∃ next, stringJoin 4097 (some garbage) s str = .ok next ∧ next.HoldsText (text ++ str.bytes) := by
  rw [holds.length] at total
  obtain ⟨final, joined, kept, length, content⟩ := @joinAll_concatenates s [⟨4097, some garbage, str⟩]
    holds.wellFormed (by simpa [totalLength] using total) (by simp) (by simp)
  cases ran : stringJoin 4097 (some garbage) s str with
  | error fault => simp [joinAll, ran, Except.bind] at joined
  | ok next =>
      simp only [joinAll, ran] at joined
      obtain rfl : next = final := Except.ok.inj joined
      refine ⟨next, rfl, kept, ?_, ?_⟩
      · simp only [totalLength, List.map_cons, List.map_nil, List.sum_cons, List.sum_nil] at length
        omega
      · rw [content, holds.content, joinedBytes, List.flatMap_cons, List.flatMap_nil, List.append_nil]

theorem texts_make_cases {new : NewCap} {made' : Option (List UInt8)}
    (allowed : texts.make new = some made') :
    new.str.strlen ≤ 4096 ∧
      (made' = none ∧
        (new.cap.toNat < new.str.strlen ∨ new.kmallocView = false ∨ new.kmallocStr = none) ∨
      made' = some new.str.bytes ∧ new.str.strlen < new.cap.toNat ∧ new.kmallocView = true ∧
        ∃ garbage, new.kmallocStr = some garbage) := by
  simp only [texts] at allowed
  split at allowed
  · simp at allowed
  · rename_i modest
    have small : new.str.strlen ≤ 4096 := Nat.le_of_not_gt modest
    split at allowed
    · rename_i fails
      exact ⟨small, .inl ⟨(Option.some.inj allowed).symm, fails⟩⟩
    · rename_i succeeds
      split at allowed
      · simp at allowed
      · obtain ⟨fits, view, buffer⟩ := not_or.mp succeeds |>.imp_right not_or.mp
        refine ⟨small, .inr ⟨(Option.some.inj allowed).symm, by omega, ?_, ?_⟩⟩
        · rwa [Bool.not_eq_false] at view
        · exact Option.ne_none_iff_exists'.mp buffer

theorem texts_change_cases {text next' : List UInt8} {joined : Joined}
    (allowed : texts.change text joined = some next') :
    text.length + joined.str.strlen ≤ 4096 ∧ next' = text ++ joined.str.bytes ∧
      ∃ garbage, joined.krealloc = some garbage := by
  simp only [texts] at allowed
  split at allowed
  · rename_i modest
    exact ⟨modest.1, (Option.some.inj allowed).symm, Option.isSome_iff_exists.mp modest.2⟩
  · simp at allowed

theorem texts_ask_cases {text : List UInt8} {query : Query} {answer : Answer}
    (allowed : texts.ask text query = some answer) :
    query.patternLength < 4294967296 ∧ answer = textQuery text query := by
  simp only [texts] at allowed
  split at allowed
  · rename_i small
    exact ⟨small, (Option.some.inj allowed).symm⟩
  · simp at allowed

theorem views_refine_texts : views.Refines StringView.HoldsText texts where
  make new made' allowed := by
    refine ⟨_, rfl, ?_⟩
    obtain ⟨small, ⟨rfl, fails⟩ | ⟨rfl, room, view, garbage, given⟩⟩ := texts_make_cases allowed
    · rw [stringNewCap_null small fails]
      exact .none
    · obtain ⟨s, made, holds⟩ := stringNewCap_holdsText garbage small room
      rw [view, given, made]
      exact .some holds
  change s text joined next' holds allowed := by
    obtain ⟨total, rfl, garbage, given⟩ := texts_change_cases allowed
    obtain ⟨next, ran, holds'⟩ := stringJoin_holdsText holds garbage joined.str total
    refine ⟨next, ?_, holds'⟩
    simp only [views, given, ran]
    rfl
  ask s text query answer holds allowed := by
    obtain ⟨small, rfl⟩ := texts_ask_cases allowed
    exact stringQuery_text holds query small

end LearnK.Strings
