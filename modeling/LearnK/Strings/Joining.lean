import LearnK.Strings.Growth
import LearnK.Strings.Slices

/-! What `string_join` does to the content: concatenation while the text stays small, observations
that later joins do not change, and a NULL pointer when `krealloc` fails. -/

namespace LearnK.Strings

open ByteMemory CInt CString Pattern

def joinedBytes (joins : List Join) : List UInt8 := joins.flatMap fun join => join.str.bytes

theorem below_growLimit {request cap : Nat} (small : request ≤ 4096) (positive : 0 < cap) :
    request < growLimit cap := by
  by_cases low : cap ≤ 4096
  · have above := growLimit_above positive low
    omega
  · have above := le_growLimit cap
    omega

theorem joinAll_concatenates {s : StringView} {joins : List Join} (wellFormed : s.WellFormed)
    (total : s.len + totalLength joins ≤ 4096)
    (allocates : ∀ join ∈ joins, join.krealloc.isSome = true)
    (fuel : ∀ join ∈ joins, 4096 < join.fuel) :
    ∃ final, joinAll s joins = .ok final ∧ final.WellFormed ∧
      final.len = s.len + totalLength joins ∧ final.content = s.content ++ joinedBytes joins := by
  induction joins generalizing s with
  | nil => exact ⟨s, rfl, wellFormed, rfl, (List.append_nil _).symm⟩
  | cons join rest ih =>
      simp only [totalLength, List.map_cons, List.sum_cons] at total ih ⊢
      obtain ⟨garbage, block⟩ := Option.isSome_iff_exists.mp (allocates join (by simp))
      have enough := fuel join (by simp)
      have room := wellFormed.room
      obtain ⟨grown, looped, -⟩ := growLoop_ends
        (@below_growLimit (s.len + join.str.strlen) s.cap (by omega) (by omega))
      obtain ⟨next, joined⟩ := @stringJoin_returns join.fuel grown garbage s join.str wellFormed
        (by omega) (growLoop_mono looped (by omega)) (by omega)
      obtain ⟨kept, length, content⟩ := stringJoin_wellFormed wellFormed (by omega) joined
      obtain ⟨final, later, finished, finalLen, finalContent⟩ := @ih next kept (by omega)
        (fun other member => allocates other (by simp [member]))
        (fun other member => fuel other (by simp [member]))
      refine ⟨final, ?_, finished, by omega, ?_⟩
      · rw [joinAll, block, joined]
        exact later
      · rw [finalContent, content, List.append_assoc]
        rfl

/-- A string made with room for its text and joined up to 4096 bytes is the concatenation after
every join, however the text is cut and whatever capacity it began with. -/
theorem stringJoin_concatenates (garbage fresh : Nat → UInt8) (str : Text) (cap : UInt64)
    (room : str.strlen < cap.toNat) (joins : List Join)
    (total : str.strlen + totalLength joins ≤ 4096)
    (allocates : ∀ join ∈ joins, join.krealloc.isSome = true)
    (fuel : ∀ join ∈ joins, 4096 < join.fuel) :
    ∃ s, stringNewCap true (some garbage) str cap = some s ∧ ∀ count,
      ∃ after copy, joinAll s (joins.take count) = .ok after ∧
        stringChar (some fresh) after = some (some copy) ∧
        copy.string = some (str.bytes ++ joinedBytes (joins.take count)) ∧
        stringLen after = (str.bytes ++ joinedBytes (joins.take count)).length ∧
        (str.bytes ++ joinedBytes (joins.take count)).length < after.cap := by
  obtain ⟨s, made⟩ : ∃ s, stringNewCap true (some garbage) str cap = some s := by
    have fits : ¬toU64 (toS32 str.strlen) > cap.toNat := by
      unfold toU64 toS32
      omega
    simp [stringNewCap, fits]
  have wellFormed := (stringNewCap_wellFormed_iff (by omega) made).mpr room
  obtain ⟨-, sLen, -, -, data, held⟩ := stringNewCap_some (by omega) made
  have content : s.content = str.bytes := by
    have stored := slice_blit_same data 0 (str.bytes ++ [0])
    rw [List.length_append, slice_append] at stored
    rw [StringView.content, held, Option.elim_some, sLen]
    exact List.append_inj_left' stored rfl
  refine ⟨s, made, fun count => ?_⟩
  have part : totalLength (joins.take count) ≤ totalLength joins := by
    have whole := congrArg totalLength (List.take_append_drop count joins)
    simp only [totalLength, List.map_append, List.sum_append] at whole ⊢
    omega
  obtain ⟨after, joined, kept, length, text⟩ := @joinAll_concatenates s (joins.take count)
    wellFormed (by omega) (fun join member => allocates join (List.mem_of_mem_take member))
    (fun join member => fuel join (List.mem_of_mem_take member))
  have legible := kept.legible (by omega)
  obtain ⟨copy, copied, copyText⟩ := stringChar_content legible fresh
  rw [content] at text
  rw [text] at copyText
  have size : (str.bytes ++ joinedBytes (joins.take count)).length = after.len := by
    rw [← text, content_length legible]
  refine ⟨after, copy, joined, copied, copyText, ?_, by rw [size]; exact kept.room⟩
  rw [size, stringLen, toS32]
  have short := legible.short
  omega

def twoJoins : List Join := [⟨4097, some fun _ => 7, textAb⟩, ⟨4097, some fun _ => 7, textAb⟩]

theorem stringJoin_concatenates_twoJoins :
    ∃ s after copy, stringNewCap true (some fun _ => 7) textAb 3 = some s ∧
      joinAll s twoJoins = .ok after ∧ stringChar (some fun _ => 0) after = some (some copy) ∧
      copy.string = some [97, 98, 97, 98, 97, 98] := by
  obtain ⟨s, made, joined⟩ := stringJoin_concatenates (fun _ => 7) (fun _ => 0) textAb 3 (by decide)
    twoJoins (by decide) (by decide) (by decide)
  obtain ⟨after, copy, ran, copied, text, -⟩ := joined 2
  exact ⟨s, after, copy, made, ran, copied, text⟩

theorem stringGrowup_null {fuel request : Nat} {s grown : StringView}
    (grew : stringGrowup fuel none s request = .ok grown) (needed : request ≥ s.cap) :
    grown.str = none := by
  unfold stringGrowup at grew
  split at grew
  · simp at grew
  · rw [if_pos needed, Except.ok.injEq] at grew
    rw [← grew]
    rfl

theorem stringJoin_some_of_ok {fuel : Nat} {krealloc : Option (Nat → UInt8)} {s next : StringView}
    {str : Text} (joined : stringJoin fuel krealloc s str = .ok next) :
    ∃ garbage, stringJoin fuel (some garbage) s str = .ok next := by
  cases krealloc with
  | some garbage => exact ⟨garbage, joined⟩
  | none =>
      refine ⟨fun _ => 0, ?_⟩
      unfold stringJoin at joined ⊢
      by_cases needed : (toU32 (s.len + toU32 str.strlen)).toNat ≥ s.cap
      · simp only [needed, if_true] at joined
        cases grew : stringGrowup fuel none s (toU32 (s.len + toU32 str.strlen)).toNat with
        | error fault => simp [grew, Except.bind] at joined
        | ok grown =>
            have lost : grown.str = none := stringGrowup_null grew needed
            simp [grew, Except.bind, joinAppend, lost] at joined
      · simpa only [needed, if_false] using joined

section

variable {s next : StringView} {str : Text}

theorem stringHasSuffix_joined (legible : next.Legible) {old : List UInt8}
    (joined : next.content = old ++ str.bytes) (small : str.strlen < 2 ^ 32) :
    stringHasSuffix next str = some true ∧ stringLastIndex next str = some old.length := by
  obtain ⟨result, ended, iff⟩ := stringHasSuffix_iff legible str
  obtain ⟨index, indexed, last⟩ := stringLastIndex_last legible str
  rw [compared_eq small, joined] at iff last
  have place : (old ++ str.bytes).length - str.bytes.length = old.length := by
    rw [List.length_append, Nat.add_sub_cancel]
  have occurs := occursAt_appended old str.bytes
  rw [place] at iff
  have atEnd := last.eq_end_iff.mpr ⟨by rwa [place], by simp⟩
  rw [ended, iff.mpr occurs, indexed]
  refine ⟨rfl, congrArg some ?_⟩
  rw [atEnd.1, List.length_append]
  omega

theorem stringHasPrefix_joined (before : s.Legible) (after : next.Legible) {more : List UInt8}
    (joined : next.content = s.content ++ more) (held : stringHasPrefix s str = some true) :
    stringHasPrefix next str = some true := by
  obtain ⟨result, began, iff⟩ := stringHasPrefix_iff before str
  obtain rfl := Option.some.inj (held.symm.trans began)
  obtain ⟨result', began', iff'⟩ := stringHasPrefix_iff after str
  rw [joined] at iff'
  rw [began', iff'.mpr ((iff.mp rfl).append more)]

theorem stringIndex_joined (before : s.Legible) (after : next.Legible) {more : List UInt8}
    (joined : next.content = s.content ++ more) {index : Int}
    (indexed : stringIndex s str = some index) (nonneg : 0 ≤ index) :
    stringIndex next str = some index := by
  obtain ⟨other, indexed', first⟩ := stringIndex_first before str
  obtain rfl := Option.some.inj (indexed.symm.trans indexed')
  obtain ⟨later, indexedLater, firstLater⟩ := stringIndex_first after str
  rw [joined] at firstLater
  rw [indexedLater, firstLater.unique (first.append nonneg more)]

theorem stringIndex_appears (before : s.Legible) (after : next.Legible) {more : List UInt8}
    (joined : next.content = s.content ++ more) (absent : stringIndex s str = some (-1)) {index : Int}
    (indexed : stringIndex next str = some index) (nonneg : 0 ≤ index) :
    (s.len : Int) < index + str.strlen := by
  obtain ⟨other, indexed', first⟩ := stringIndex_first before str
  obtain rfl := Option.some.inj (absent.symm.trans indexed')
  obtain ⟨later, indexedLater, firstLater⟩ := stringIndex_first after str
  obtain rfl := Option.some.inj (indexed.symm.trans indexedLater)
  rw [joined] at firstLater
  have beyond := first.beyond firstLater nonneg
  have width := compared_length str
  rw [content_length before] at beyond
  omega

theorem stringSubstring_joined (before : s.Legible) (after : next.Legible) {more : List UInt8}
    (joined : next.content = s.content ++ more) (garbage garbage' : Nat → UInt8) (start : Int32)
    {stop : Int32} (old : stop.toInt ≤ s.len) :
    ∃ result result', stringSubstring (some garbage) s start stop = some result ∧
      stringSubstring (some garbage') next start stop = some result' ∧
      result'.map Buffer.string = result.map Buffer.string := by
  have grown : s.len ≤ next.len := by
    rw [← content_length before, ← content_length after, joined, List.length_append]
    omega
  obtain ⟨nonneg, order, -, buffer, made, text, -⟩ | ⟨outside, refused⟩ :=
    stringSubstring_cases before garbage start stop
  · obtain ⟨buffer', made', text'⟩ :=
      stringSubstring_of_bounds after garbage' nonneg order (by omega)
    refine ⟨some buffer, some buffer', made, made', ?_⟩
    rw [Option.map_some, Option.map_some, text, text', joined, List.extract, List.extract,
      List.drop_append_of_le_length, List.take_append_of_le_length]
    · rw [List.length_drop, content_length before]
      omega
    · rw [content_length before]
      omega
  · obtain ⟨nonneg, order, -, -⟩ | ⟨-, refused'⟩ := stringSubstring_cases after garbage' start stop
    · exact absurd ⟨nonneg, order, old⟩ outside
    · exact ⟨none, none, refused, refused', rfl⟩

end

/-- Joining to a length that an `int` can hold keeps what the observers said about the old text. -/
theorem stringJoin_stable (fuel : Nat) (krealloc : Option (Nat → UInt8)) (s next : StringView)
    (wellFormed : s.WellFormed) (str : Text) (small : s.len + str.strlen < 2 ^ 31)
    (joined : stringJoin fuel krealloc s str = .ok next) (other : Text) :
    stringHasSuffix next str = some true ∧ stringLastIndex next str = some s.len ∧
    (stringHasPrefix s other = some true → stringHasPrefix next other = some true) ∧
    (∀ index, stringIndex s other = some index → 0 ≤ index →
      stringIndex next other = some index) ∧
    (stringIndex s other = some (-1) → ∀ index, stringIndex next other = some index → 0 ≤ index →
      (s.len : Int) < index + other.strlen) ∧
    ∀ (garbage garbage' : Nat → UInt8) (start stop : Int32), stop.toInt ≤ s.len →
      ∃ result result', stringSubstring (some garbage) s start stop = some result ∧
        stringSubstring (some garbage') next start stop = some result' ∧
        result'.map Buffer.string = result.map Buffer.string := by
  obtain ⟨fresh, same⟩ := stringJoin_some_of_ok joined
  obtain ⟨kept, length, content⟩ := stringJoin_wellFormed wellFormed small same
  have before := wellFormed.legible (by omega)
  have after := kept.legible (by omega)
  obtain ⟨suffix, last⟩ := stringHasSuffix_joined after content (by omega)
  rw [content_length before] at last
  refine ⟨suffix, last, stringHasPrefix_joined before after content, ?_, ?_, ?_⟩
  · intro index indexed nonneg
    exact stringIndex_joined before after content indexed nonneg
  · intro absent index indexed nonneg
    exact stringIndex_appears before after content absent indexed nonneg
  · intro garbage garbage' start stop old
    exact stringSubstring_joined before after content garbage garbage' start old

theorem stringAb_wellFormed : stringAb.WellFormed := by
  obtain ⟨buffer, held, -, terminated⟩ := stringAb_legible.buffer
  refine ⟨by decide, by decide, ⟨buffer, held, ?_, terminated⟩, by simp [stringAb]⟩
  rw [← Option.some.inj held]
  rfl

theorem stringJoin_stable_ab :
    ∃ next, stringJoin 14 (some fun _ => 7) stringAb textAb = .ok next ∧
      stringHasSuffix next textAb = some true ∧ stringLastIndex next textAb = some 2 := by
  obtain ⟨grown, looped, -⟩ := growLoop_ends (by decide : 4 < growLimit 3)
  obtain ⟨next, joined⟩ := @stringJoin_returns 14 grown (fun _ => 7) stringAb textAb
    stringAb_wellFormed (by decide) looped (by decide)
  obtain ⟨suffix, last, -⟩ := stringJoin_stable 14 (some fun _ => 7) stringAb next
    stringAb_wellFormed textAb (by decide) joined textAb
  exact ⟨next, joined, suffix, last⟩

def wideA : StringView where
  str := some ⟨blit (fun _ => 0) 0 [97, 0], 2 ^ 32⟩
  len := 1
  cap := 2 ^ 32
  stores := []

theorem wideA_wellFormed : wideA.WellFormed := by
  refine ⟨by decide, by decide, ⟨_, rfl, rfl, ?_, rfl⟩, by simp [wideA]⟩
  intro index bound
  obtain rfl : index = 0 := Nat.lt_one_iff.mp bound
  decide

theorem stringJoin_roomy {fuel nul : Nat} {krealloc : Option (Nat → UInt8)} {s : StringView}
    {str : Text} {buffer : Buffer} (held : s.str = some buffer)
    (scanned : nulIndex buffer.data fuel 0 = some nul)
    (roomy : (toU32 (s.len + toU32 str.strlen)).toNat < s.cap) :
    ∃ next data, stringJoin fuel krealloc s str = .ok next ∧
      next.len = (toU32 (s.len + toU32 str.strlen)).toNat ∧
      next.str = some ⟨data, buffer.size⟩ := by
  rw [stringJoin, if_neg (by omega)]
  simp only [Except.bind, joinAppend, held, scanned]
  exact ⟨_, _, rfl, rfl, rfl⟩

/-- A suffix length that is negative as an `int` moves the comparison up by 2^32. -/
theorem stringHasSuffix_faults {s : StringView} {str : Text} {buffer : Buffer}
    (held : s.str = some buffer) (negative : 2 ^ 31 ≤ str.strlen) (wide : str.strlen < 2 ^ 32)
    (fits : str.strlen ≤ s.len) (outside : buffer.size + str.strlen ≤ s.len + 2 ^ 32) :
    stringHasSuffix s str = none := by
  have len : toS32 str.strlen = (str.strlen : Int) - 2 ^ 32 := by
    unfold toS32
    omega
  have guard : ¬toU32 ((str.strlen : Int) - 2 ^ 32) > s.len := by
    unfold toU32
    omega
  obtain ⟨count, positive⟩ : ∃ count, (toU64 ((str.strlen : Int) - 2 ^ 32)).toNat = count + 1 :=
    ⟨(toU64 ((str.strlen : Int) - 2 ^ 32)).toNat - 1, by unfold toU64; omega⟩
  obtain ⟨char, rest, chars⟩ : ∃ char rest, str.chars = char :: rest :=
    List.exists_cons_of_ne_nil (by simp [Text.chars])
  have unread : s.read (s.len - ((str.strlen : Int) - 2 ^ 32)) = none := by
    rw [StringView.read, held, Option.bind_some]
    exact if_neg (by omega)
  simp only [stringHasSuffix, len, guard, if_false, positive, chars, strncmp, unread,
    Option.bind_none, Option.map_none]

theorem stringJoin_suffix_faults : wideA.WellFormed ∧
    ∃ next, stringJoin 2 none wideA (repeated (2 ^ 31)) = .ok next ∧
      stringHasSuffix next (repeated (2 ^ 31)) = none := by
  have strlen := repeated_strlen (2 ^ 31)
  have request : (toU32 (wideA.len + toU32 (repeated (2 ^ 31)).strlen)).toNat = 2 ^ 31 + 1 := by
    rw [strlen]
    decide
  obtain ⟨next, data, joined, len, held⟩ := @stringJoin_roomy 2 1 none wideA (repeated (2 ^ 31)) _ rfl
    (by decide) (by rw [request]; decide)
  rw [request] at len
  refine ⟨wideA_wellFormed, next, joined, stringHasSuffix_faults held ?_ ?_ ?_ ?_⟩
  · rw [strlen]
  · rw [strlen]
    decide
  · rw [strlen, len]
    decide
  · rw [strlen, len]
    show 2 ^ 32 + 2 ^ 31 ≤ 2 ^ 31 + 1 + 2 ^ 32
    decide

def JoinAtomic (s : StringView) (str : Text) : Prop :=
  ∃ fuel next, stringJoin fuel none s str = .ok next ∧ next.content = s.content ∧
    next.len = s.len ∧ next.cap = s.cap ∧ next.WellFormed

theorem stringJoin_null_error {fuel : Nat} {s : StringView} {str : Text}
    (needed : (toU32 (s.len + toU32 str.strlen)).toNat ≥ s.cap) (next : StringView) :
    stringJoin fuel none s str ≠ .ok next := by
  intro joined
  simp only [stringJoin, needed, if_true] at joined
  cases grew : stringGrowup fuel none s (toU32 (s.len + toU32 str.strlen)).toNat with
  | error fault => simp [grew, Except.bind] at joined
  | ok grown => simp [grew, Except.bind, joinAppend, stringGrowup_null grew needed] at joined

/-- A join that needs room and does not get it never leaves the string as it was: `string_growup`
has replaced the pointer by NULL and raised the capacity, and the join goes on through NULL. -/
theorem stringJoin_never_atomic (s : StringView) (str : Text)
    (needed : (toU32 (s.len + toU32 str.strlen)).toNat ≥ s.cap) :
    ¬JoinAtomic s str ∧
      ((toU32 (s.len + toU32 str.strlen)).toNat < growLimit s.cap → ∀ fuel ≥ 14,
        stringJoin fuel none s str = .error .nullPointer ∧
        ∃ grown, stringGrowup fuel none s (toU32 (s.len + toU32 str.strlen)).toNat = .ok grown ∧
          grown.str = none ∧ s.cap < grown.cap) := by
  constructor
  · rintro ⟨fuel, next, joined, -⟩
    exact stringJoin_null_error needed next joined
  · intro below fuel enough
    obtain ⟨cap, looped, -⟩ := growLoop_ends below
    have longer := growLoop_mono looped enough
    obtain ⟨grown, grew, rfl⟩ := stringGrowup_of_loop none longer
    have lost := stringGrowup_null grew needed
    have above := growLoop_above longer
    refine ⟨?_, grown, grew, lost, by omega⟩
    simp [stringJoin, needed, grew, Except.bind, joinAppend, lost]

theorem stringJoin_never_atomic_ab : ¬JoinAtomic stringAb textAb :=
  (stringJoin_never_atomic stringAb textAb (by decide)).1

theorem stringJoin_ab_through_null : stringAb.WellFormed ∧
    stringJoin 14 none stringAb textAb = .error .nullPointer ∧ ¬JoinAtomic stringAb textAb := by
  refine ⟨stringAb_wellFormed, rfl, ?_⟩
  rintro ⟨fuel, next, joined, -⟩
  exact stringJoin_null_error (by decide) next joined

end LearnK.Strings
