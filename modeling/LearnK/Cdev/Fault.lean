import LearnK.Cdev.Core

/-! A write to the cdev device that fails with `-EFAULT`.  `copy_from_user` works on the device's
own memory, so what it stored before the fault, and the zeros after it, stay. -/

namespace LearnK.Cdev

open ByteMemory CInt

def outcomes : State → List Call → List Outcome
  | _, [] => []
  | state, call :: rest => (perform state call).2 :: outcomes (perform state call).1 rest

def State.SameFile (first second : State) : Prop :=
  first.mem = second.mem ∧ first.fpos = second.fpos

/-- Nothing of the call is left: not in the device, not in a position, not for later calls. -/
structure LeavesNoTrace (state : State) (call : Call) (ppos : Int) : Prop where
  mem : ∀ address, address < hellodevSize → (perform state call).1.mem address = state.mem address
  ppos : (perform state call).2.ppos = ppos
  fpos : (perform state call).1.fpos = state.fpos
  later : ∀ calls, outcomes (perform state call).1 calls = outcomes state calls

def StoresWhatIsThere (mem buf : Nat → UInt8) (p count copied : Nat) : Prop :=
  (∀ index, index < copied → mem (p + index) = buf index) ∧
    ∀ index, copied ≤ index → index < count → mem (p + index) = 0

theorem perform_sameFile {first second : State} (same : first.SameFile second) (call : Call) :
    (perform first call).2 = (perform second call).2 ∧
      (perform first call).1.SameFile (perform second call).1 := by
  obtain ⟨mem, fpos, history⟩ := first
  obtain ⟨mem', fpos', history'⟩ := second
  obtain ⟨rfl, rfl⟩ := same
  cases call with
  | read position size copied => cases position <;> exact ⟨rfl, rfl, rfl⟩
  | write position buf size copied => cases position <;> exact ⟨rfl, rfl, rfl⟩
  | llseek file offset orig => exact ⟨rfl, rfl, rfl⟩
  | ioctl cmd => exact ⟨rfl, rfl, rfl⟩

theorem outcomes_sameFile {first second : State} (same : first.SameFile second)
    (calls : List Call) : outcomes first calls = outcomes second calls := by
  induction calls generalizing first second with
  | nil => rfl
  | cons call rest ih =>
      obtain ⟨outcome, next⟩ := perform_sameFile same call
      rw [outcomes, outcomes, outcome, ih next]

theorem helloWrite_fault {mem buf : Nat → UInt8} {size copied : Nat} {ppos : Int}
    (fault : (helloWrite mem buf size copied ppos).2.ret = -efault) :
    let count := clampCount size (toU64 ppos)
    toU64 ppos < hellodevSize ∧ copied < count ∧
      (helloWrite mem buf size copied ppos).2.ppos = ppos ∧
      (helloWrite mem buf size copied ppos).1 = blit mem (toU64 ppos).toNat
        ((slice buf 0 count).take copied ++ List.replicate (count - copied) 0) := by
  have code : efault = 14 := rfl
  unfold helloWrite at fault ⊢
  by_cases beyond : toU64 ppos ≥ hellodevSize
  · simp only [beyond, if_true] at fault
    omega
  · simp only [beyond, if_false] at fault ⊢
    split_ifs at fault ⊢ with short
    · exact ⟨by omega, by omega, rfl, rfl⟩
    · simp only at fault
      omega

theorem clampCount_inside (size : Nat) {p : Int} (nonneg : 0 ≤ p) (below : p < hellodevSize) :
    p.toNat + clampCount size p ≤ hellodevSize := by
  unfold hellodevSize at below
  simp only [clampCount, toU32, toU64, hellodevSize]
  omega

theorem blit_faulted {mem buf : Nat → UInt8} {p count copied index : Nat} (short : copied < count)
    (inside : index < count) :
    blit mem p ((slice buf 0 count).take copied ++ List.replicate (count - copied) 0) (p + index) =
      if index < copied then buf index else 0 := by
  have bound : index <
      ((slice buf 0 count).take copied ++ List.replicate (count - copied) 0).length := by
    simp only [List.length_append, List.length_take, slice_length, List.length_replicate]
    omega
  rw [blit_inside mem p _ bound]
  by_cases before : index < copied
  · rw [if_pos before, List.getElem_append_left (by simp; omega)]
    simp [slice]
  · rw [if_neg before, List.getElem_append_right (by simp; omega), List.getElem_replicate]

theorem storesWhatIsThere_of_same {mem buf : Nat → UInt8} {p count copied : Nat}
    (short : copied < count) (inside : p + count ≤ hellodevSize)
    (same : ∀ address, address < hellodevSize → blit mem p
      ((slice buf 0 count).take copied ++ List.replicate (count - copied) 0) address = mem address) :
    StoresWhatIsThere mem buf p count copied := by
  constructor
  · intro index before
    have stored := same (p + index) (by omega)
    rw [blit_faulted short (by omega), if_pos before] at stored
    exact stored.symm
  · intro index after bound
    have stored := same (p + index) (by omega)
    rw [blit_faulted short bound, if_neg (by omega)] at stored
    exact stored.symm

theorem StoresWhatIsThere.blit_eq {mem buf : Nat → UInt8} {p count copied : Nat}
    (there : StoresWhatIsThere mem buf p count copied) (short : copied < count) :
    blit mem p ((slice buf 0 count).take copied ++ List.replicate (count - copied) 0) = mem := by
  funext address
  by_cases below : address < p
  · exact blit_below mem _ below
  · obtain ⟨index, rfl⟩ := Nat.exists_eq_add_of_le (Nat.le_of_not_lt below)
    by_cases bound : index < count
    · rw [blit_faulted short bound]
      split_ifs with before
      · exact (there.1 index before).symm
      · exact (there.2 index (by omega) bound).symm
    · refine blit_above mem _ ?_
      simp only [List.length_append, List.length_take, slice_length, List.length_replicate]
      omega

theorem Position.put_get (state : State) (position : Position) :
    (position.put state (position.get state)).fpos = state.fpos := by
  cases position with
  | explicit pos => rfl
  | own file =>
      funext other
      simp only [Position.put, Position.get, State.seek]
      split
      · next same => rw [same]
      · rfl

/-- A write that fails with `-EFAULT` leaves no trace exactly when the bytes it copied before the
fault, and the zeros that follow them, are what the device already held there. -/
theorem helloWrite_fault_traceless_iff (state : State) (position : Position) (buf : Nat → UInt8)
    (size copied : Nat)
    (fault : (perform state (.write position buf size copied)).2.ret = -efault) :
    LeavesNoTrace state (.write position buf size copied) (position.get state) ↔
      StoresWhatIsThere state.mem buf (toU64 (position.get state)).toNat
        (clampCount size (toU64 (position.get state))) copied := by
  obtain ⟨below, short, ppos, stored⟩ := helloWrite_fault fault
  have nonneg : 0 ≤ toU64 (position.get state) := by
    unfold toU64
    omega
  have inside := clampCount_inside size nonneg below
  have mem : (perform state (.write position buf size copied)).1.mem =
      (helloWrite state.mem buf size copied (position.get state)).1 := by
    cases position <;> rfl
  have kept : (perform state (.write position buf size copied)).1.fpos = state.fpos := by
    rw [← position.put_get state]
    simp only [perform, ppos]
    cases position <;> rfl
  rw [stored] at mem
  constructor
  · intro untouched
    refine storesWhatIsThere_of_same short inside ?_
    intro address bound
    rw [← mem]
    exact untouched.mem address bound
  · intro there
    rw [there.blit_eq short] at mem
    exact ⟨fun address _ => congrFun mem address, ppos, kept, outcomes_sameFile ⟨mem, kept⟩⟩

theorem helloWrite_fault_traceless_iff_zeros :
    (perform initial (.write (.own 0) (fun _ => 0) 3 1)).2.ret = -efault ∧
      LeavesNoTrace initial (.write (.own 0) (fun _ => 0) 3 1) 0 :=
  ⟨by decide, (helloWrite_fault_traceless_iff initial (.own 0) (fun _ => 0) 3 1 (by decide)).mpr
    ⟨fun _ _ => rfl, fun _ _ _ => rfl⟩⟩

theorem helloWrite_fault_leaves_byte :
    (perform initial (.write (.own 0) (fun _ => 7) 3 1)).2 = ⟨-efault, 0, []⟩ ∧
      outcomes (perform initial (.write (.own 0) (fun _ => 7) 3 1)).1 [.read (.own 1) 3 3] =
        [⟨3, 3, [7, 0, 0]⟩] ∧
      outcomes initial [.read (.own 1) 3 3] = [⟨3, 3, [0, 0, 0]⟩] ∧
      ¬LeavesNoTrace initial (.write (.own 0) (fun _ => 7) 3 1) 0 := by
  refine ⟨by decide, by decide, by decide, ?_⟩
  intro untouched
  exact absurd (untouched.mem 0 (by decide)) (by decide)

end LearnK.Cdev
