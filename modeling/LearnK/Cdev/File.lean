import LearnK.Cdev.Core

/-! The cdev device refines a file of `HELLODEV_SIZE` bytes shared by its openers, whose
contents are read off the history of writes and clears. -/

namespace LearnK.Cdev

open ByteMemory CInt StepMachine

def lastByte (address : Nat) : List FileEvent → UInt8
  | [] => 0
  | .cleared :: _ => 0
  | .wrote start bytes :: older =>
      if start ≤ address ∧ address < start + bytes.length then bytes.getD (address - start) 0
      else lastByte address older

def Position.Valid : Position → Prop
  | .own _ => True
  | .explicit pos => 0 ≤ pos ∧ pos < 9223372036854775808

/-- What the VFS and the calls considered here allow: sizes up to `INT_MAX`, non-negative
explicit positions, seeks by less than `2^32`. -/
def Call.Valid : Call → Prop
  | .read position size _ => position.Valid ∧ size ≤ 2147483647
  | .write position _ size _ => position.Valid ∧ size ≤ 2147483647
  | .llseek _ offset _ => -4294967296 < offset ∧ offset < 4294967296
  | .ioctl _ => True

structure FileInvariant (state : State) : Prop where
  position : ∀ file, 0 ≤ state.fpos file ∧ state.fpos file ≤ hellodevSize
  contents : ∀ address, address < hellodevSize → state.mem address = lastByte address state.history

theorem clampCount_eq {size : Nat} {p : Int} (nonneg : 0 ≤ p) (below : p < hellodevSize)
    (sized : size ≤ 2147483647) : (clampCount size p : Int) = min (size : Int) (hellodevSize - p) := by
  unfold hellodevSize at below
  simp only [clampCount, toU32, toU64, hellodevSize]
  omega

theorem helloRead_success {mem : Nat → UInt8} {size copied : Nat} {ppos : Int}
    (nonneg : 0 ≤ ppos) (small : ppos < 9223372036854775808) (sized : size ≤ 2147483647)
    (success : 0 ≤ (helloRead mem size copied ppos).ret) :
    let outcome := helloRead mem size copied ppos
    outcome.ret = max 0 (min (size : Int) (hellodevSize - ppos)) ∧
      outcome.ppos = ppos + outcome.ret ∧
      outcome.data = slice mem ppos.toNat outcome.ret.toNat := by
  have position : toU64 ppos = ppos := toU64_of_range nonneg (by omega)
  unfold helloRead at success ⊢
  simp only [position] at success ⊢
  by_cases beyond : ppos ≥ hellodevSize
  · simp only [beyond, if_true]
    refine ⟨by omega, by omega, rfl⟩
  · have clamped := clampCount_eq nonneg (by omega) sized
    simp only [beyond, if_false] at success ⊢
    split_ifs at success ⊢ with incomplete
    · simp [efault] at success
    · have bound : ppos + (clampCount size ppos : Int) < 9223372036854775808 := by
        unfold hellodevSize at clamped
        omega
      refine ⟨by simp only; omega, toS64_of_range (by omega) bound, by simp⟩

theorem helloWrite_success {mem buf : Nat → UInt8} {size copied : Nat} {ppos : Int}
    (nonneg : 0 ≤ ppos) (small : ppos < 9223372036854775808) (sized : size ≤ 2147483647)
    (success : 0 ≤ (helloWrite mem buf size copied ppos).2.ret) :
    let result := helloWrite mem buf size copied ppos
    result.2.ret = max 0 (min (size : Int) (hellodevSize - ppos)) ∧
      result.2.ppos = ppos + result.2.ret ∧
      result.1 = blit mem ppos.toNat (slice buf 0 result.2.ret.toNat) := by
  have position : toU64 ppos = ppos := toU64_of_range nonneg (by omega)
  unfold helloWrite at success ⊢
  simp only [position] at success ⊢
  by_cases beyond : ppos ≥ hellodevSize
  · simp only [beyond, if_true]
    refine ⟨by omega, by omega, (blit_nil mem _).symm⟩
  · have clamped := clampCount_eq nonneg (by omega) sized
    simp only [beyond, if_false] at success ⊢
    split_ifs at success ⊢ with incomplete
    · simp [efault] at success
    · have bound : ppos + (clampCount size ppos : Int) < 9223372036854775808 := by
        unfold hellodevSize at clamped
        omega
      have complete : clampCount size ppos - copied = 0 := not_not.mp incomplete
      have whole : (slice buf 0 (clampCount size ppos)).take copied =
          slice buf 0 (clampCount size ppos) := by
        apply List.take_of_length_le
        simp
        omega
      refine ⟨by simp only; omega, toS64_of_range (by omega) bound, ?_⟩
      simp [whole, complete]

theorem helloLlseek_success {fpos offset orig : Int} (low : 0 ≤ fpos) (high : fpos ≤ hellodevSize)
    (offsetLow : -4294967296 < offset) (offsetHigh : offset < 4294967296)
    (success : 0 ≤ (helloLlseek fpos offset orig).1) :
    let result := helloLlseek fpos offset orig
    result.2 = result.1 ∧ result.2 ≤ hellodevSize ∧
      (orig = 0 → result.2 = offset) ∧ (orig = 1 → result.2 = fpos + offset) := by
  have sum : toS64 (fpos + offset) = fpos + offset := by
    unfold hellodevSize at high
    exact toS64_of_range (by omega) (by omega)
  unfold helloLlseek at success ⊢
  rw [sum] at success ⊢
  by_cases zero : orig = 0
  · simp only [zero, if_true] at success ⊢
    by_cases negative : offset < 0
    · simp [negative, einval] at success
    · rw [toU32_of_range (by omega) offsetHigh] at success ⊢
      by_cases beyond : offset > hellodevSize
      · simp [negative, beyond, einval] at success
      · simp [negative, beyond, Int.not_lt.mp beyond]
  · by_cases one : orig = 1
    · simp only [one, if_true] at success ⊢
      by_cases beyond : fpos + offset > hellodevSize
      · simp [beyond, einval] at success
      · by_cases negative : fpos + offset < 0
        · simp [beyond, negative, einval] at success
        · simp [negative, beyond, Int.not_lt.mp beyond]
    · simp [zero, one, einval] at success

def available (size : Nat) (position : Int) : Int := max 0 (min (size : Int) (hellodevSize - position))

def CallSpec (state next : State) (outcome : Outcome) : Call → Prop
  | .read position size _ =>
      let p := position.get state
      outcome.ret = available size p ∧ outcome.data.length = outcome.ret.toNat ∧
        (∀ index, index < outcome.ret.toNat →
          outcome.data[index]? = some (lastByte (p.toNat + index) state.history)) ∧
        outcome.ppos = p + outcome.ret ∧ next = position.put state outcome.ppos
  | .write position buf size _ =>
      let p := position.get state
      outcome.ret = available size p ∧
        (∀ address, next.mem address =
          if p.toNat ≤ address ∧ address < p.toNat + outcome.ret.toNat then buf (address - p.toNat)
          else state.mem address) ∧
        outcome.ppos = p + outcome.ret ∧ next.fpos = (position.put state outcome.ppos).fpos
  | .llseek file offset orig =>
      ((orig = 0 ∧ outcome.ret = offset) ∨ (orig = 1 ∧ outcome.ret = state.fpos file + offset)) ∧
        next = state.seek file outcome.ret
  | .ioctl cmd => cmd = memClear ∧ outcome.ret = 0 ∧ next.fpos = state.fpos ∧
      ∀ address, address < hellodevSize → next.mem address = 0

theorem Position.get_range {state : State} (invariant : FileInvariant state) {position : Position}
    (valid : position.Valid) :
    0 ≤ position.get state ∧ position.get state < 9223372036854775808 := by
  cases position with
  | own file =>
      have range := invariant.position file
      simp only [Position.get, hellodevSize] at range ⊢
      omega
  | explicit pos => exact valid

theorem blit_slice_apply (mem buf : Nat → UInt8) (start count address : Nat) :
    blit mem start (slice buf 0 count) address =
      if start ≤ address ∧ address < start + count then buf (address - start) else mem address := by
  by_cases inside : start ≤ address ∧ address < start + count
  · obtain ⟨index, rfl⟩ := Nat.exists_eq_add_of_le inside.1
    have bound : index < (slice buf 0 count).length := by simp; omega
    rw [if_pos inside, blit_inside mem start _ bound]
    simp [slice]
  · rw [if_neg inside]
    by_cases below : address < start
    · exact blit_below mem _ below
    · exact blit_above mem _ (by simp; omega)

theorem helloIoctl_memClear (mem : Nat → UInt8) {cmd : Nat} (clear : cmd = memClear) :
    (helloIoctl mem cmd).2 = 0 := by
  rw [helloIoctl, if_pos clear]

theorem perform_spec {state : State} (invariant : FileInvariant state) {call : Call}
    (valid : call.Valid) (success : 0 ≤ (perform state call).2.ret) :
    CallSpec state (perform state call).1 (perform state call).2 call := by
  cases call with
  | read position size copied =>
      obtain ⟨nonneg, small⟩ := Position.get_range invariant valid.1
      obtain ⟨ret, ppos, data⟩ := helloRead_success nonneg small valid.2 success
      refine ⟨ret, ?_, ?_, ppos, rfl⟩
      · simp only [perform, data, slice_length]
      · intro index bound
        simp only [perform] at bound ⊢
        have inside : (position.get state).toNat + index < hellodevSize := by omega
        rw [data, slice_getElem? _ _ _ _ bound, invariant.contents _ inside]
  | write position buf size copied =>
      obtain ⟨nonneg, small⟩ := Position.get_range invariant valid.1
      obtain ⟨ret, ppos, mem⟩ := helloWrite_success nonneg small valid.2 success
      refine ⟨ret, ?_, ppos, ?_⟩
      · intro address
        have stored : (perform state (.write position buf size copied)).1.mem =
            (helloWrite state.mem buf size copied (position.get state)).1 := by
          cases position <;> rfl
        rw [stored, mem]
        exact blit_slice_apply state.mem buf _ _ address
      · cases position <;> rfl
  | llseek file offset orig =>
      have range := invariant.position file
      obtain ⟨same, -, set, current⟩ :=
        helloLlseek_success range.1 range.2 valid.1 valid.2 success
      refine ⟨?_, congrArg (state.seek file) same⟩
      by_cases zero : orig = 0
      · exact Or.inl ⟨zero, same.symm.trans (set zero)⟩
      · by_cases one : orig = 1
        · exact Or.inr ⟨one, same.symm.trans (current one)⟩
        · simp [perform, helloLlseek, zero, one, einval] at success
  | ioctl cmd =>
      by_cases clear : cmd = memClear
      · refine ⟨clear, helloIoctl_memClear state.mem clear, rfl, ?_⟩
        intro address bound
        have inside : address < (List.replicate hellodevSize (0 : UInt8)).length := by simpa using bound
        have stored := blit_inside state.mem 0 (List.replicate hellodevSize (0 : UInt8)) inside
        simpa [perform, helloIoctl, clear] using stored
      · simp [perform, helloIoctl, clear, einval] at success

theorem lastByte_wrote (address start count : Nat) (buf : Nat → UInt8) (older : List FileEvent) :
    lastByte address (.wrote start (slice buf 0 count) :: older) =
      if start ≤ address ∧ address < start + count then buf (address - start)
      else lastByte address older := by
  simp only [lastByte, slice_length]
  split
  · rename_i inside
    have bound : address - start < count := by omega
    simp [List.getD_eq_getElem?_getD, slice_getElem? buf 0 count _ bound]
  · rfl

theorem positions_seek {state : State} (invariant : FileInvariant state) {file : Nat} {value : Int}
    (low : 0 ≤ value) (high : value ≤ hellodevSize) (other : Nat) :
    0 ≤ (state.seek file value).fpos other ∧ (state.seek file value).fpos other ≤ hellodevSize := by
  simp only [State.seek]
  split
  · exact ⟨low, high⟩
  · exact invariant.position other

theorem positions_put {state : State} (invariant : FileInvariant state) {position : Position}
    {size : Nat} {value : Int}
    (advanced : value = position.get state + available size (position.get state)) (file : Nat) :
    0 ≤ (position.put state value).fpos file ∧ (position.put state value).fpos file ≤ hellodevSize := by
  cases position with
  | explicit pos => exact invariant.position file
  | own own =>
      have range := invariant.position own
      simp only [Position.get, available] at advanced
      exact positions_seek invariant (by omega) (by omega) file

theorem fileInvariant_step {state next : State} {call : Call} (valid : call.Valid)
    (invariant : FileInvariant state) (stepped : step state call = some next) :
    FileInvariant next := by
  unfold step at stepped
  split_ifs at stepped with failed
  cases stepped
  have spec := perform_spec invariant valid (Int.not_lt.mp failed)
  cases call with
  | read position size copied =>
      obtain ⟨ret, -, -, ppos, same⟩ := spec
      rw [ret] at ppos
      refine ⟨?_, ?_⟩
      · intro file
        rw [same]
        exact positions_put invariant ppos file
      · intro address bound
        rw [same]
        cases position <;> exact invariant.contents address bound
  | write position buf size copied =>
      obtain ⟨ret, stored, ppos, positions⟩ := spec
      rw [ret] at ppos
      refine ⟨?_, ?_⟩
      · intro file
        rw [positions]
        exact positions_put invariant ppos file
      · intro address bound
        have logged : (perform state (.write position buf size copied)).1.history =
            .wrote (position.get state).toNat
              (slice buf 0 (perform state (.write position buf size copied)).2.ret.toNat) ::
              state.history := by
          cases position <;> rfl
        rw [stored, logged, lastByte_wrote, invariant.contents address bound]
  | llseek file offset orig =>
      obtain ⟨target, same⟩ := spec
      have range := invariant.position file
      have seek := helloLlseek_success range.1 range.2 valid.1 valid.2 (Int.not_lt.mp failed)
      refine ⟨?_, ?_⟩
      · intro other
        rw [same]
        refine positions_seek invariant (Int.not_lt.mp failed) ?_ other
        exact Int.le_trans (Int.le_of_eq seek.1.symm) seek.2.1
      · intro address bound
        rw [same]
        exact invariant.contents address bound
  | ioctl cmd =>
      obtain ⟨-, -, positions, zeroed⟩ := spec
      refine ⟨?_, ?_⟩
      · intro file
        rw [positions]
        exact invariant.position file
      · intro address bound
        rw [zeroed address bound]
        rfl

theorem fileInvariant_initial : FileInvariant initial where
  position _ := by simp [initial]
  contents _ _ := rfl

/-- After any run of successful calls every position lies in the device, and the next successful
call reads and writes the shared file at the position it was given.  `MEM_CLEAR` always succeeds. -/
theorem helloDev_refines_file (calls : List Call) (state : State)
    (valid : ∀ call ∈ calls, call.Valid) (reached : run step initial calls = some state) :
    (∀ file, 0 ≤ state.fpos file ∧ state.fpos file ≤ hellodevSize) ∧
      (∀ call, call.Valid → 0 ≤ (perform state call).2.ret →
        CallSpec state (perform state call).1 (perform state call).2 call) ∧
      (perform state (.ioctl memClear)).2.ret = 0 := by
  have invariant : FileInvariant state :=
    run_invariant_allowed Call.Valid (fun _ _ _ allowed kept stepped =>
      fileInvariant_step allowed kept stepped) valid fileInvariant_initial reached
  exact ⟨invariant.position, fun call allowed success => perform_spec invariant allowed success,
    helloIoctl_memClear state.mem rfl⟩

/-- The second opener goes to the last two bytes, fills them, and fills them once more after a
clear. -/
def twoOpeners : List Call :=
  [.write (.own 0) (fun index => UInt8.ofNat (index + 1)) 3 3, .llseek 1 4090 0, .llseek 1 4 1,
    .write (.own 1) (fun index => UInt8.ofNat (index + 5)) 2 2, .ioctl memClear, .llseek 1 (-2) 1,
    .write (.own 1) (fun index => UInt8.ofNat (index + 9)) 5 5]

theorem helloDev_refines_file_twoOpeners : ∃ state, run step initial twoOpeners = some state ∧
    (perform state (.read (.explicit 4093) 8 8)).2 = ⟨3, 4096, [0, 9, 10]⟩ ∧
    CallSpec state (perform state (.read (.explicit 4093) 8 8)).1
      (perform state (.read (.explicit 4093) 8 8)).2 (.read (.explicit 4093) 8 8) := by
  have observed : (run step initial twoOpeners).map (fun state =>
      (perform state (.read (.explicit 4093) 8 8)).2) = some ⟨3, 4096, [0, 9, 10]⟩ := by decide +kernel
  obtain ⟨state, ran, outcome⟩ := Option.map_eq_some_iff.mp observed
  refine ⟨state, ran, outcome, ?_⟩
  refine (helloDev_refines_file twoOpeners state ?_ ran).2.1 _ ?_ (by rw [outcome]; decide)
  · simp [twoOpeners, Call.Valid, Position.Valid]
  · simp [Call.Valid, Position.Valid]

end LearnK.Cdev
