import LearnK.Strings.Joining

/-! What growing costs: while a string stays small, the blocks that `krealloc` has to copy are all
together smaller than the block it ends in, and that one is not twice as long as it needs to be. -/

namespace LearnK.Strings

open CInt CString

def Grows (s : StringView) (str : Text) : Prop := (toU32 (s.len + toU32 str.strlen)).toNat ≥ s.cap

instance (s : StringView) (str : Text) : Decidable (Grows s str) := inferInstanceAs (Decidable (_ ≥ _))

/-- The capacities of the blocks that are given to `krealloc`. -/
def reallocated : StringView → List Join → List Nat
  | _, [] => []
  | s, join :: rest =>
      (if Grows s join.str then [s.cap] else []) ++
        match stringJoin join.fuel join.krealloc s join.str with
        | .ok next => reallocated next rest
        | .error _ => []

theorem reallocated_cons {s next : StringView} {join : Join} {rest : List Join}
    (joined : stringJoin join.fuel join.krealloc s join.str = .ok next) :
    reallocated s (join :: rest) =
      (if Grows s join.str then [s.cap] else []) ++ reallocated next rest := by
  rw [reallocated, joined]

section

variable {fuel request grown : Nat} {s next : StringView} {str : Text}

theorem growLoop_least {cap : Nat} (small : request ≤ 4096) (needed : request ≥ cap)
    (looped : growLoop request fuel cap = some grown) : 2 * cap ≤ grown ∧ grown ≤ 2 * request := by
  induction fuel generalizing cap with
  | zero => simp [growLoop] at looped
  | succ fuel ih =>
      have doubled : growStep cap = cap + cap := by
        rw [growStep, if_pos (by omega)]
      rw [growLoop_succ, if_pos needed, doubled] at looped
      by_cases again : request ≥ cap + cap
      · obtain ⟨more, least⟩ := ih again looped
        omega
      · cases fuel with
        | zero => simp [growLoop] at looped
        | succ fuel =>
            rw [growLoop_succ, if_neg again] at looped
            obtain rfl := Option.some.inj looped
            omega

theorem joinAppend_cap (appended : joinAppend fuel s str = .ok next) : next.cap = s.cap := by
  unfold joinAppend at appended
  split at appended
  · simp at appended
  · split at appended
    · simp at appended
    · obtain rfl := Except.ok.inj appended
      rfl

theorem stringJoin_cap {krealloc : Option (Nat → UInt8)} (small : s.len + str.strlen ≤ 4096)
    (joined : stringJoin fuel krealloc s str = .ok next) :
    (¬Grows s str ∧ next.cap = s.cap) ∨
      Grows s str ∧ 2 * s.cap ≤ next.cap ∧ next.cap ≤ 2 * (s.len + str.strlen) := by
  have request : (toU32 (s.len + toU32 str.strlen)).toNat = s.len + str.strlen :=
    request_eq (by omega)
  unfold stringJoin at joined
  simp only [Grows, request] at joined ⊢
  by_cases needed : s.len + str.strlen ≥ s.cap
  · rw [if_pos needed] at joined
    refine .inr ⟨needed, ?_⟩
    unfold stringGrowup at joined
    cases looped : growLoop (s.len + str.strlen) fuel s.cap with
    | none => simp [looped, Except.bind] at joined
    | some grown =>
        simp only [looped, if_pos needed, Except.bind] at joined
        rw [joinAppend_cap joined]
        exact growLoop_least small needed looped
  · rw [if_neg needed] at joined
    exact .inl ⟨needed, joinAppend_cap joined⟩

end

theorem joinAll_costs {s final : StringView} {joins : List Join} (wellFormed : s.WellFormed)
    (total : s.len + totalLength joins ≤ 4096) (joined : joinAll s joins = .ok final) :
    (reallocated s joins).sum + s.cap ≤ final.cap ∧
      s.cap * Nat.pow 2 (reallocated s joins).length ≤ final.cap ∧
      final.len = s.len + totalLength joins ∧ (final.cap = s.cap ∨ final.cap ≤ 2 * final.len) := by
  induction joins generalizing s with
  | nil =>
      obtain rfl := Except.ok.inj joined
      simp [reallocated, totalLength]
  | cons join rest ih =>
      simp only [totalLength, List.map_cons, List.sum_cons] at total ih ⊢
      rw [joinAll] at joined
      cases first : stringJoin join.fuel join.krealloc s join.str with
      | error fault => simp [first, Except.bind] at joined
      | ok next =>
          rw [first] at joined
          change joinAll next rest = .ok final at joined
          obtain ⟨garbage, allocated⟩ := stringJoin_some_of_ok first
          obtain ⟨formed, length, -⟩ := stringJoin_wellFormed wellFormed (by omega) allocated
          obtain ⟨copied, powers, finalLen, least⟩ := ih formed (by omega) joined
          rw [reallocated_cons first]
          rcases stringJoin_cap (by omega) first with ⟨stays, same⟩ | ⟨grows, doubled, bounded⟩
          · rw [if_neg stays, List.nil_append]
            rw [same] at copied powers least
            exact ⟨copied, powers, by omega, least⟩
          · rw [if_pos grows, List.singleton_append, List.sum_cons, List.length_cons]
            refine ⟨by omega, ?_, by omega, .inr (by omega)⟩
            calc s.cap * Nat.pow 2 ((reallocated next rest).length + 1)
                = s.cap * (2 * Nat.pow 2 (reallocated next rest).length) :=
                  congrArg (s.cap * ·) Nat.pow_succ'
              _ = 2 * s.cap * Nat.pow 2 (reallocated next rest).length := by
                  rw [← Nat.mul_assoc, Nat.mul_comm s.cap]
              _ ≤ next.cap * Nat.pow 2 (reallocated next rest).length := Nat.mul_le_mul_right _ doubled
              _ ≤ final.cap := powers

/-- Joins up to 4096 bytes in all, however they are cut: the blocks that `krealloc` copies are
together smaller than the last one, of them there are at most as many as doublings fit in, and a
string that has grown at all has less than twice the room it needs. -/
theorem stringJoin_amortized (s final : StringView) (joins : List Join) (wellFormed : s.WellFormed)
    (total : s.len + totalLength joins ≤ 4096) (joined : joinAll s joins = .ok final) :
    (reallocated s joins).sum + s.cap ≤ final.cap ∧
      s.cap * Nat.pow 2 (reallocated s joins).length ≤ final.cap ∧
      (final.cap = s.cap ∨ final.cap ≤ 2 * final.len) := by
  obtain ⟨copied, powers, -, least⟩ := joinAll_costs wellFormed total joined
  exact ⟨copied, powers, least⟩

theorem stringJoin_amortized_ab : ∃ final, joinAll stringAb twoJoins = .ok final ∧
    (reallocated stringAb twoJoins).sum + 3 ≤ final.cap ∧
      3 * Nat.pow 2 (reallocated stringAb twoJoins).length ≤ final.cap ∧
      (final.cap = 3 ∨ final.cap ≤ 2 * final.len) := by
  obtain ⟨final, joined, -⟩ := joinAll_concatenates stringAb_wellFormed
    (show stringAb.len + totalLength twoJoins ≤ 4096 by decide) (by decide) (by decide)
  exact ⟨final, joined, stringJoin_amortized stringAb final twoJoins
    stringAb_wellFormed (by decide) joined⟩

end LearnK.Strings
