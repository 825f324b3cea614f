import LearnK.Strings.Invariant

/-! How far the loop of `string_growup` can raise a capacity, and that it ends exactly for the
requests below that. -/

namespace LearnK.Strings

open ByteMemory CInt CString

/-- Capacities up to 4096 are doubled until they pass it; beyond, a round only halves or quarters
and the next ones lead back, to the same capacity made even. -/
def growLimit (cap : Nat) : Nat :=
  if cap ≤ 4096 then cap * 2 ^ (Nat.log2 (4096 / cap) + 1)
  else if cap ≤ 8192 then cap + cap % 2
  else cap

theorem growLimit_double {cap : Nat} (low : 2048 < cap) (high : cap ≤ 4096) :
    growLimit cap = 2 * cap := by
  have one : 4096 / cap = 1 := by
    rw [Nat.div_eq_iff (by omega)]
    omega
  have level : Nat.log2 1 = 0 := by decide
  rw [growLimit, if_pos high, one, level, Nat.zero_add, Nat.pow_one, Nat.mul_comm]

theorem growLimit_half {cap : Nat} (small : cap ≤ 2048) : growLimit (cap + cap) = growLimit cap := by
  rw [growLimit, growLimit, if_pos (by omega), if_pos (by omega)]
  cases cap with
  | zero => rfl
  | succ cap =>
      have halved : 4096 / (cap + 1 + (cap + 1)) = 4096 / (cap + 1) / 2 := by
        rw [Nat.div_div_eq_div_mul, Nat.mul_two]
      have two : 2 ≤ 4096 / (cap + 1) := (Nat.le_div_iff_mul_le (by omega)).mpr (by omega)
      have levels : Nat.log2 (4096 / (cap + 1)) = Nat.log2 (4096 / (cap + 1) / 2) + 1 := by
        rw [Nat.log2_def, if_pos two]
      rw [halved, levels, ← Nat.mul_two, Nat.mul_assoc, ← Nat.pow_succ']

theorem growLimit_above {cap : Nat} (positive : 0 < cap) (small : cap ≤ 4096) :
    4096 < growLimit cap := by
  rw [growLimit, if_pos small]
  have below : 4096 / cap < 2 ^ (Nat.log2 (4096 / cap) + 1) := Nat.lt_log2_self
  rw [Nat.div_lt_iff_lt_mul positive] at below
  rwa [Nat.mul_comm]

theorem growLimit_le {cap : Nat} (small : cap ≤ 4096) : growLimit cap ≤ 8192 := by
  rw [growLimit, if_pos small]
  cases cap with
  | zero => simp
  | succ cap =>
      have quotient : 1 ≤ 4096 / (cap + 1) := (Nat.le_div_iff_mul_le (by omega)).mpr (by omega)
      have power : 2 ^ Nat.log2 (4096 / (cap + 1)) ≤ 4096 / (cap + 1) :=
        Nat.log2_self_le (by omega)
      have product := (Nat.le_div_iff_mul_le (by omega)).mp power
      rw [Nat.pow_succ, ← Nat.mul_assoc, Nat.mul_comm (cap + 1)]
      omega

theorem le_growLimit (cap : Nat) : cap ≤ growLimit cap := by
  by_cases small : cap ≤ 4096
  · rw [growLimit, if_pos small]
    exact Nat.le_mul_of_pos_right cap (Nat.two_pow_pos _)
  · simp only [growLimit, small, if_false]
    split <;> omega

theorem growLimit_growStep (cap : Nat) : growLimit (growStep cap) ≤ growLimit cap := by
  unfold growStep
  split_ifs with small middle
  · by_cases half : cap ≤ 2048
    · exact Nat.le_of_eq (growLimit_half half)
    · rw [growLimit_double (by omega) small]
      simp only [growLimit, if_neg (show ¬cap + cap ≤ 4096 by omega),
        if_pos (show cap + cap ≤ 8192 by omega)]
      omega
  · rw [growLimit_double (by omega) (by omega)]
    simp only [growLimit, small, middle, if_false, if_true]
    omega
  · have whole : growLimit cap = cap := by
      simp only [growLimit, small, middle, if_false]
    rw [whole]
    by_cases low : cap / 4 + cap % 4 ≤ 4096
    · have bound := growLimit_le low
      omega
    · simp only [growLimit, low, if_false]
      split_ifs <;> omega

theorem growLoop_succ (request fuel cap : Nat) :
    growLoop request (fuel + 1) cap =
      if request ≥ cap then growLoop request fuel (growStep cap) else some cap := rfl

theorem growLoop_stuck {request cap : Nat} (beyond : growLimit cap ≤ request) (fuel : Nat) :
    growLoop request fuel cap = none := by
  induction fuel generalizing cap with
  | zero => rfl
  | succ fuel ih =>
      have reached := le_growLimit cap
      rw [growLoop_succ, if_pos (by omega)]
      exact ih (Nat.le_trans (growLimit_growStep cap) beyond)

theorem growLoop_mono {request fuel more cap grown : Nat}
    (looped : growLoop request fuel cap = some grown) (enough : fuel ≤ more) :
    growLoop request more cap = some grown := by
  induction fuel generalizing more cap with
  | zero => simp [growLoop] at looped
  | succ fuel ih =>
      obtain ⟨rest, rfl⟩ := Nat.exists_eq_add_of_le' enough
      rw [← Nat.add_assoc, growLoop_succ]
      rw [growLoop_succ] at looped
      split_ifs at looped ⊢ with small
      · exact ih looped (by omega)
      · exact looped

theorem growLoop_doubles {request doublings cap : Nat} (fits : cap * 2 ^ doublings ≤ 4096)
    (enough : request < cap * 2 ^ (doublings + 1)) :
    ∃ grown, growLoop request (doublings + 2) cap = some grown ∧ cap ≤ grown := by
  induction doublings generalizing cap with
  | zero =>
      simp only [Nat.pow_zero, Nat.mul_one, Nat.zero_add, Nat.pow_one] at fits enough
      rw [growLoop_succ, growLoop_succ]
      have doubled : growStep cap = cap + cap := by
        rw [growStep, if_pos fits]
      by_cases small : request ≥ cap
      · rw [if_pos small, doubled, if_neg (by omega)]
        exact ⟨_, rfl, by omega⟩
      · rw [if_neg small]
        exact ⟨_, rfl, Nat.le_refl _⟩
  | succ doublings ih =>
      have shifted (exponent : Nat) : (cap + cap) * 2 ^ exponent = cap * 2 ^ (exponent + 1) := by
        rw [← Nat.mul_two, Nat.mul_assoc, ← Nat.pow_succ']
      have le : cap ≤ 4096 := Nat.le_trans (Nat.le_mul_of_pos_right cap (Nat.two_pow_pos _)) fits
      have doubled : growStep cap = cap + cap := by
        rw [growStep, if_pos le]
      rw [growLoop_succ]
      by_cases small : request ≥ cap
      · rw [if_pos small, doubled]
        obtain ⟨grown, looped, above⟩ := @ih (cap + cap) (by rw [shifted]; exact fits)
          (by rw [shifted]; exact enough)
        exact ⟨grown, looped, by omega⟩
      · rw [if_neg small]
        exact ⟨_, rfl, Nat.le_refl _⟩

/-- Thirteen doublings lead from 1 past 4096, so fourteen tests end the loop if any number does. -/
theorem growLoop_ends {request cap : Nat} (below : request < growLimit cap) :
    ∃ grown, growLoop request 14 cap = some grown ∧ cap ≤ grown := by
  by_cases stops : request < cap
  · exact ⟨cap, by rw [growLoop_succ, if_neg (by omega)], Nat.le_refl _⟩
  by_cases small : cap ≤ 4096
  · rw [growLimit, if_pos small] at below
    have positive : 0 < cap := by
      by_contra zero
      obtain rfl : cap = 0 := by omega
      simp at below
    have quotient : 1 ≤ 4096 / cap := (Nat.le_div_iff_mul_le positive).mpr (by omega)
    have power : 2 ^ Nat.log2 (4096 / cap) ≤ 4096 / cap := Nat.log2_self_le (by omega)
    have fits := (Nat.le_div_iff_mul_le positive).mp power
    rw [Nat.mul_comm] at fits
    have rounds : Nat.log2 (4096 / cap) < 13 := by
      rw [Nat.log2_lt (by omega)]
      have bound := Nat.div_le_self 4096 cap
      omega
    obtain ⟨grown, looped, above⟩ := growLoop_doubles fits below
    exact ⟨grown, growLoop_mono looped (by omega), above⟩
  · simp only [growLimit, small, if_false] at below
    split_ifs at below with middle
    · -- an odd capacity between the bounds comes back one larger
      obtain ⟨odd, rfl⟩ : cap % 2 = 1 ∧ request = cap := by omega
      have halved : growStep request = request / 2 + request % 2 := by
        simp only [growStep, small, middle, if_false, if_true]
      have doubled : growStep (request / 2 + request % 2) = request + 1 := by
        rw [growStep, if_pos (by omega)]
        omega
      refine ⟨request + 1, ?_, by omega⟩
      rw [growLoop_succ, if_pos (Nat.le_refl _), halved, growLoop_succ, if_pos (by omega), doubled,
        growLoop_succ, if_neg (by omega)]
    · omega

theorem stringGrowup_cap {fuel request : Nat} {krealloc : Option (Nat → UInt8)} {s grown : StringView}
    (grew : stringGrowup fuel krealloc s request = .ok grown) :
    growLoop request fuel s.cap = some grown.cap := by
  unfold stringGrowup at grew
  split at grew
  · simp at grew
  · rename_i cap looped
    split_ifs at grew <;> cases grew <;> exact looped

theorem stringGrowup_of_loop {fuel request cap : Nat} (krealloc : Option (Nat → UInt8)) {s : StringView}
    (looped : growLoop request fuel s.cap = some cap) :
    ∃ grown, stringGrowup fuel krealloc s request = .ok grown ∧ grown.cap = cap := by
  rw [stringGrowup, looped]
  by_cases needed : request ≥ s.cap
  · simp only [needed, if_true]
    exact ⟨_, rfl, rfl⟩
  · simp only [needed, if_false]
    exact ⟨_, rfl, rfl⟩

/-- `string_growup` ends with the room asked for, and no less than before, exactly when the request
is below the limit of the present capacity. -/
theorem stringGrowup_ends_iff (krealloc : Option (Nat → UInt8)) (s : StringView) (request : Nat) :
    (∃ fuel grown, stringGrowup fuel krealloc s request = .ok grown ∧ request < grown.cap ∧
      s.cap ≤ grown.cap) ↔ request < growLimit s.cap := by
  constructor
  · rintro ⟨fuel, grown, grew, -, -⟩
    by_contra beyond
    have stuck := growLoop_stuck (Nat.le_of_not_lt beyond) fuel
    simp [stringGrowup_cap grew] at stuck
  · intro below
    obtain ⟨cap, looped, above⟩ := growLoop_ends below
    obtain ⟨grown, grew, rfl⟩ := stringGrowup_of_loop krealloc looped
    exact ⟨14, grown, grew, growLoop_above looped, above⟩

/-- From 4097 the loop goes to 2049 and 4098 and then between these two for ever. -/
theorem stringGrowup_never_ends : ∃ s, stringNewCap true (some fun _ => 7) textAb 4097 = some s ∧
    ¬∃ fuel grown, stringGrowup fuel (some fun _ => 7) s 5000 = .ok grown := by
  obtain ⟨s, made⟩ := Option.isSome_iff_exists.mp
    (by decide : (stringNewCap true (some fun _ => 7) textAb 4097).isSome = true)
  obtain ⟨-, -, cap, -⟩ := stringNewCap_some (by decide) made
  refine ⟨s, made, ?_⟩
  rintro ⟨fuel, grown, grew⟩
  have stuck := @growLoop_stuck 5000 s.cap (by rw [cap]; decide) fuel
  simp [stringGrowup_cap grew] at stuck

end LearnK.Strings
