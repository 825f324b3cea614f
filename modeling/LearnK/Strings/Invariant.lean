import LearnK.Strings.Core

/-! The representation invariant of `string_view`: construction establishes it exactly when
the text is shorter than the capacity, and every `string_join` keeps it. -/

namespace LearnK.Strings

open ByteMemory CInt CString

def Store.InBounds (store : Store) : Prop := store.start + store.length ≤ store.size

/-- Room for the terminator, no NUL before it, and no store outside the buffer. -/
structure StringView.WellFormed (s : StringView) : Prop where
  width : s.cap < 2 ^ 64
  room : s.len < s.cap
  buffer : ∃ buffer, s.str = some buffer ∧ buffer.size = s.cap ∧ Terminated buffer.data s.len
  stores : ∀ store ∈ s.stores, store.InBounds

def StringView.content (s : StringView) : List UInt8 :=
  s.str.elim [] fun buffer => slice buffer.data 0 s.len

theorem growLoop_above {request fuel cap grown : Nat} (looped : growLoop request fuel cap = some grown) :
    request < grown := by
  induction fuel generalizing cap with
  | zero => simp [growLoop] at looped
  | succ fuel ih =>
      simp only [growLoop] at looped
      split_ifs at looped with small
      · exact ih looped
      · simp only [Option.some.injEq] at looped
        omega

theorem growStep_width {cap : Nat} (width : cap < 2 ^ 64) : growStep cap < 2 ^ 64 := by
  unfold growStep
  split_ifs <;> omega

theorem growLoop_width {request fuel cap grown : Nat} (width : cap < 2 ^ 64)
    (looped : growLoop request fuel cap = some grown) : grown < 2 ^ 64 := by
  induction fuel generalizing cap with
  | zero => simp [growLoop] at looped
  | succ fuel ih =>
      simp only [growLoop] at looped
      split_ifs at looped with small
      · exact ih (growStep_width width) looped
      · simp only [Option.some.injEq] at looped
        omega

theorem stringGrowup_wellFormed {fuel request : Nat} {garbage : Nat → UInt8} {s grown : StringView}
    (wellFormed : s.WellFormed) (larger : s.len ≤ request) (needed : request ≥ s.cap)
    (grew : stringGrowup fuel (some garbage) s request = .ok grown) :
    grown.WellFormed ∧ grown.len = s.len ∧ request < grown.cap ∧ grown.content = s.content := by
  obtain ⟨buffer, str, size, terminated⟩ := wellFormed.buffer
  unfold stringGrowup at grew
  split at grew
  · simp at grew
  · rename_i newCap looped
    have above := growLoop_above looped
    have room := wellFormed.room
    simp only [needed, if_true, str, Option.map_some, Except.ok.injEq] at grew
    subst grown
    have kept (index : Nat) (bound : index ≤ s.len) : index < min buffer.size newCap := by
      omega
    refine ⟨⟨growLoop_width wellFormed.width looped, ?_, ⟨_, rfl, rfl, ?_⟩, wellFormed.stores⟩,
      rfl, above, ?_⟩
    · show s.len < newCap
      omega
    · apply terminated_congr terminated
      intro index bound
      simp only [kept index bound, if_true]
    · simp only [StringView.content, str, Option.elim_some]
      apply slice_congr
      intro index bound
      simp only [Nat.zero_add, kept index (by omega), if_true]

theorem stringNewCap_some {kmallocView : Bool} {kmallocStr : Option (Nat → UInt8)} {str : Text}
    {cap : UInt64} {s : StringView} (small : str.strlen < 2147483648)
    (made : stringNewCap kmallocView kmallocStr str cap = some s) :
    str.strlen ≤ cap.toNat ∧ s.len = str.strlen ∧ s.cap = cap.toNat ∧
      s.stores = [⟨0, str.strlen, cap.toNat⟩, ⟨str.strlen, 1, cap.toNat⟩] ∧
      ∃ garbage, s.str = some ⟨blit garbage 0 (str.bytes ++ [0]), cap.toNat⟩ := by
  have signed : toS32 str.strlen = str.strlen := by
    unfold toS32
    omega
  have unsigned : (toU32 (str.strlen : Int)).toNat = str.strlen := by
    unfold toU32
    omega
  have wide : toU64 (str.strlen : Int) = str.strlen := toU64_of_range (by omega) (by omega)
  unfold stringNewCap at made
  simp only [signed, wide] at made
  split_ifs at made with tooLong
  obtain ⟨garbage, -, rfl⟩ := Option.map_eq_some_iff.mp made
  refine ⟨by omega, unsigned, rfl, ?_, garbage, ?_⟩
  · simp only [unsigned]
  · simp only [unsigned, strncpyBytes_all]
    have joined := blit_append garbage 0 str.bytes [0]
    rw [Nat.zero_add] at joined
    rw [← joined]
    rfl

theorem stringNewCap_wellFormed_iff {kmallocView : Bool} {kmallocStr : Option (Nat → UInt8)}
    {str : Text} {cap : UInt64} {s : StringView} (small : str.strlen < 2147483648)
    (made : stringNewCap kmallocView kmallocStr str cap = some s) :
    s.WellFormed ↔ str.strlen < cap.toNat := by
  obtain ⟨-, len, sameCap, stores, garbage, buffer⟩ := stringNewCap_some small made
  constructor
  · intro wellFormed
    have room := wellFormed.room
    omega
  · intro room
    refine ⟨sameCap ▸ cap.toNat_lt, by omega, ⟨_, buffer, sameCap.symm, ?_⟩, ?_⟩
    · have terminated := @terminated_blit garbage 0 (by simp) str
      rwa [Nat.zero_add, ← len] at terminated
    · rw [stores]
      simp only [List.mem_cons, List.not_mem_nil, or_false, forall_eq_or_imp, forall_eq,
        Store.InBounds]
      omega

theorem request_eq {len strlen : Nat} (small : len + strlen < 2147483648) :
    (toU32 (len + toU32 strlen)).toNat = len + strlen := by
  unfold toU32
  omega

theorem room_eq {s : StringView} (wellFormed : s.WellFormed) :
    (toU64 ((s.cap : Int) - s.len)).toNat = s.cap - s.len := by
  have width := wellFormed.width
  have room := wellFormed.room
  unfold toU64
  omega

theorem slice_appended (data : Nat → UInt8) (len : Nat) (str : Text) :
    slice (blit (blit data len (str.bytes ++ [0])) (len + str.strlen) [0]) 0 (len + str.strlen) =
      slice data 0 len ++ str.bytes := by
  have stored := slice_blit_same data len (str.bytes ++ [0])
  rw [List.length_append, slice_append] at stored
  rw [slice_blit_apart _ _ (.inl (by omega)), slice_append, Nat.zero_add,
    slice_blit_apart _ _ (.inl (by omega))]
  exact congrArg _ (List.append_inj_left' stored rfl)

theorem joinAppend_wellFormed {fuel : Nat} {s next : StringView} {str : Text}
    (wellFormed : s.WellFormed) (small : s.len + str.strlen < 2147483648)
    (enough : s.len + str.strlen < s.cap) (appended : joinAppend fuel s str = .ok next) :
    next.WellFormed ∧ next.len = s.len + str.strlen ∧ next.content = s.content ++ str.bytes := by
  obtain ⟨buffer, held, size, terminated⟩ := wellFormed.buffer
  have catBytes : strncatBytes str (s.cap - s.len) = str.bytes ++ [0] :=
    strncatBytes_all (by omega)
  unfold joinAppend at appended
  simp only [held, room_eq wellFormed, catBytes, request_eq small] at appended
  split at appended
  · simp at appended
  · rename_i nul scanned
    have found : nul = s.len := by
      have first := nulIndex_some (by simpa using terminated.noNul) (by simpa using terminated.nul)
        scanned
      simpa using first
    simp only [found, Except.ok.injEq] at appended
    subst next
    have longer := terminated_restore (terminated_blit terminated.noNul str)
    refine ⟨⟨wellFormed.width, enough, ⟨_, rfl, size, longer⟩, ?_⟩, rfl, ?_⟩
    · intro store member
      have length : str.bytes.length = str.strlen := rfl
      rcases List.mem_append.mp member with old | new
      · exact wellFormed.stores store old
      · simp only [List.mem_cons, List.not_mem_nil, or_false] at new
        rcases new with rfl | rfl
        · simp only [Store.InBounds, List.length_append, List.length_singleton]
          omega
        · simp only [Store.InBounds]
          omega
    · simp only [StringView.content, held, Option.elim_some]
      exact slice_appended buffer.data s.len str

theorem stringJoin_wellFormed {fuel : Nat} {garbage : Nat → UInt8} {s next : StringView} {str : Text}
    (wellFormed : s.WellFormed) (small : s.len + str.strlen < 2147483648)
    (joined : stringJoin fuel (some garbage) s str = .ok next) :
    next.WellFormed ∧ next.len = s.len + str.strlen ∧ next.content = s.content ++ str.bytes := by
  unfold stringJoin at joined
  simp only [request_eq small] at joined
  by_cases needed : s.len + str.strlen ≥ s.cap
  · simp only [needed, if_true] at joined
    cases grew : stringGrowup fuel (some garbage) s (s.len + str.strlen) with
    | error fault => simp [grew, Except.bind] at joined
    | ok grown =>
        simp only [grew, Except.bind] at joined
        obtain ⟨large, sameLen, above, same⟩ :=
          stringGrowup_wellFormed wellFormed (Nat.le_add_right _ _) needed grew
        rw [← sameLen] at small above ⊢
        rw [← same]
        exact joinAppend_wellFormed large small above joined
  · simp only [needed, if_false, Except.bind] at joined
    exact joinAppend_wellFormed wellFormed small (by omega) joined

theorem stringJoin_returns {fuel grown : Nat} {garbage : Nat → UInt8} {s : StringView} {str : Text}
    (wellFormed : s.WellFormed) (small : s.len + str.strlen < 2147483648)
    (looped : growLoop (s.len + str.strlen) fuel s.cap = some grown) (scans : s.len < fuel) :
    ∃ next, stringJoin fuel (some garbage) s str = .ok next := by
  have appends {t : StringView} (large : t.WellFormed) (sameLen : t.len = s.len) :
      ∃ next, joinAppend fuel t str = .ok next := by
    obtain ⟨buffer, held, -, terminated⟩ := large.buffer
    have scanned : nulIndex buffer.data fuel 0 = some (0 + t.len) :=
      nulIndex_eq (by simpa using terminated.noNul) (by simpa using terminated.nul) (by omega)
    simp [joinAppend, held, scanned]
  unfold stringJoin
  simp only [request_eq small]
  by_cases needed : s.len + str.strlen ≥ s.cap
  · simp only [needed, if_true]
    cases grew : stringGrowup fuel (some garbage) s (s.len + str.strlen) with
    | error fault => simp [stringGrowup, looped, needed] at grew
    | ok larger =>
        obtain ⟨large, sameLen, -⟩ :=
          stringGrowup_wellFormed wellFormed (Nat.le_add_right _ _) needed grew
        exact appends large sameLen
  · simp only [needed, if_false]
    exact appends wellFormed rfl

def totalLength (joins : List Join) : Nat := (joins.map fun join => join.str.strlen).sum

theorem joinAll_wellFormed {s final : StringView} {joins : List Join} (wellFormed : s.WellFormed)
    (allocates : ∀ join ∈ joins, join.krealloc.isSome = true)
    (small : s.len + totalLength joins < 2147483648) (joined : joinAll s joins = .ok final) :
    final.WellFormed := by
  induction joins generalizing s with
  | nil =>
      simp only [joinAll, Except.ok.injEq] at joined
      exact joined ▸ wellFormed
  | cons join rest ih =>
      simp only [totalLength, List.map_cons, List.sum_cons] at small
      obtain ⟨garbage, block⟩ := Option.isSome_iff_exists.mp (allocates join (by simp))
      simp only [joinAll, block] at joined
      cases first : stringJoin join.fuel (some garbage) s join.str with
      | error fault => simp [first, Except.bind] at joined
      | ok next =>
          simp only [first, Except.bind] at joined
          obtain ⟨kept, length, -⟩ := stringJoin_wellFormed wellFormed (by omega) first
          refine ih kept (fun other member => allocates other (by simp [member])) ?_ joined
          rw [length, totalLength]
          omega

/-- A string made by `string_new_cap` satisfies the invariant after every run of joins exactly
when its text was shorter than the capacity; `string_new` is the case of capacity 64. -/
theorem stringNewCap_invariant_iff (kmallocView : Bool) (kmallocStr : Option (Nat → UInt8))
    (str : Text) (cap : UInt64) (s : StringView)
    (made : stringNewCap kmallocView kmallocStr str cap = some s)
    (small : str.strlen < 2147483648) :
    (∀ joins final, (∀ join ∈ joins, join.krealloc.isSome = true) →
        str.strlen + totalLength joins < 2147483648 → joinAll s joins = .ok final →
        final.WellFormed) ↔
      str.strlen < cap.toNat := by
  have construction := stringNewCap_wellFormed_iff small made
  obtain ⟨-, length, -⟩ := stringNewCap_some small made
  constructor
  · intro always
    exact construction.mp (always [] s (by simp) (by simpa [totalLength] using small) rfl)
  · intro room joins final allocates total joined
    exact joinAll_wellFormed (construction.mpr room) allocates (by omega) joined

def textAb : Text := ⟨[97, 98], by simp⟩

theorem stringNewCap_invariant_iff_textAb : ∃ s, stringNewCap true (some fun _ => 7) textAb 3 = some s ∧
    ((∀ joins final, (∀ join ∈ joins, join.krealloc.isSome = true) →
        textAb.strlen + totalLength joins < 2147483648 → joinAll s joins = .ok final →
        final.WellFormed) ↔
      textAb.strlen < (3 : UInt64).toNat) := by
  obtain ⟨s, made⟩ := Option.isSome_iff_exists.mp
    (by decide : (stringNewCap true (some fun _ => 7) textAb 3).isSome = true)
  exact ⟨s, made, stringNewCap_invariant_iff true (some fun _ => 7) textAb 3 s made (by decide)⟩

theorem stringNewCap_full_overflows : ∃ s, stringNewCap true (some fun _ => 7) textAb 2 = some s ∧
    joinAll s [] = .ok s ∧ ⟨2, 1, 2⟩ ∈ s.stores ∧ ¬s.len < s.cap ∧ ¬s.WellFormed := by
  obtain ⟨s, made⟩ := Option.isSome_iff_exists.mp
    (by decide : (stringNewCap true (some fun _ => 7) textAb 2).isSome = true)
  obtain ⟨-, len, cap, stores, -⟩ := stringNewCap_some (by decide) made
  have full : ¬s.len < s.cap := by
    rw [len, cap]
    decide
  refine ⟨s, made, rfl, ?_, full, fun wellFormed => full wellFormed.room⟩
  rw [stores]
  decide

end LearnK.Strings
