import LearnK.RamBlock.FlatDisk

/-! Which bytes of `ramblock_data` a request touches.  The capacity check adds in 64 bits and the
check in the segment loop in 32, and both sums can wrap around. -/

namespace LearnK.RamBlock

/-- A transfer whose segments are not empty and carry no more than its sectors. -/
structure Request.Sized (request : Request) : Prop where
  notPassthrough : request.passthrough = false
  transfers : request.op = .read ∨ request.op = .write
  positive : ∀ segment ∈ request.segments, 0 < segment.bvLen.toNat
  total : RamBlock.total request.segments ≤ request.sectors.toNat * sectorSize

def Result.InBounds (result : Result) : Prop :=
  ∀ access ∈ result.accesses, access.1 + access.2 ≤ ramblockSize

/-- No segment that the loop reaches passes the check by a sum of 2^32 or more. -/
def NeverWraps (op : ReqOp) (disk : Nat → UInt8) : Vmalloc → UInt32 → List BioVec → Prop
  | _, _, [] => True
  | vmalloc, offset, segment :: rest =>
      offset + segment.bvLen ≤ UInt32.ofNat ramblockSize →
        offset.toNat + segment.bvLen.toNat < 2 ^ 32 ∧
          (segment.Copies (vmalloc 0) op disk offset →
            NeverWraps op disk vmalloc.later (offset + segment.bvLen) rest)

theorem copy_inBounds_iff {offset bvLen : UInt32}
    (passes : offset + bvLen ≤ UInt32.ofNat ramblockSize) :
    offset.toNat + copySize bvLen ≤ ramblockSize ↔ offset.toNat + bvLen.toNat < 2 ^ 32 := by
  have sum : (offset.toNat + bvLen.toNat) % 2 ^ 32 ≤ ramblockSize := by
    rw [UInt32.le_iff_toNat_le, UInt32.toNat_add, ramblockSize_toNat] at passes
    exact passes
  constructor
  · intro inside
    have atLeast := le_copySize bvLen
    unfold ramblockSize at inside
    omega
  · intro narrow
    rw [Nat.mod_eq_of_lt narrow] at sum
    rw [copySize_small (by omega)]
    exact sum

theorem moveSegment_accesses (data : Option (List UInt8)) {op : ReqOp} (transfers : op ≠ .other)
    (offset : UInt32) (disk : Nat → UInt8) (segment : BioVec) :
    (moveSegment data op offset disk segment).accesses = [(offset.toNat, copySize segment.bvLen)] := by
  cases op with
  | read => rfl
  | write => rfl
  | other => exact absurd rfl transfers

theorem neverWraps_moved (data : Option (List UInt8)) (op : ReqOp) (there : UInt32)
    (disk : Nat → UInt8) (earlier : BioVec) (vmalloc : Vmalloc) (segments : List BioVec)
    (offset : UInt32) :
    NeverWraps op (moveSegment data op there disk earlier).disk vmalloc offset segments ↔
      NeverWraps op disk vmalloc offset segments := by
  induction segments generalizing vmalloc offset with
  | nil => rfl
  | cons segment rest ih => simp only [NeverWraps, BioVec.Copies, carried_moved, ih]

theorem processSegments_inBounds_iff {op : ReqOp} (transfers : op ≠ .other) (vmalloc : Vmalloc)
    (segments : List BioVec) (offset : UInt32) (disk : Nat → UInt8) :
    (processSegments op vmalloc segments offset disk).InBounds ↔
      NeverWraps op disk vmalloc offset segments := by
  induction segments generalizing vmalloc offset disk with
  | nil => simp [processSegments, Result.InBounds, NeverWraps]
  | cons segment rest ih =>
      have accesses := moveSegment_accesses (vmalloc 0) transfers offset disk segment
      have sound := moveSegment_sound_iff (vmalloc 0) op offset disk segment
      rw [processSegments, NeverWraps]
      by_cases passes : offset + segment.bvLen ≤ UInt32.ofNat ramblockSize
      · rw [if_neg (UInt32.not_lt.mpr passes)]
        simp only [passes, true_imp_iff]
        rw [← copy_inBounds_iff passes]
        cases faulted : (moveSegment (vmalloc 0) op offset disk segment).faulted with
        | true =>
            have stops : ¬segment.Copies (vmalloc 0) op disk offset := by
              intro copies
              simp [sound.mpr fun _ => copies] at faulted
            simp [Result.InBounds, accesses, stops]
        | false =>
            have copies := sound.mp faulted transfers
            simp only [Bool.false_eq_true, if_false, copies, true_imp_iff]
            rw [← neverWraps_moved (vmalloc 0) op offset disk segment, ← ih]
            simp [Result.InBounds, accesses]
      · rw [if_pos (UInt32.not_le.mp passes)]
        simp [Result.InBounds, passes]

theorem neverWraps_of_fits {op : ReqOp} {disk : Nat → UInt8} {vmalloc : Vmalloc}
    {segments : List BioVec} {offset : UInt32}
    (fits : offset.toNat + total segments ≤ ramblockSize) :
    NeverWraps op disk vmalloc offset segments := by
  induction segments generalizing vmalloc offset with
  | nil => trivial
  | cons segment rest ih =>
      have split : total (segment :: rest) = segment.bvLen.toNat + total rest := rfl
      have here : offset.toNat + segment.bvLen.toNat ≤ ramblockSize := by omega
      have next := offset_add_toNat here
      intro _
      refine ⟨?_, fun _ => ih (by omega)⟩
      unfold ramblockSize at here
      omega

/-- The capacity check lets a request through that fits, or one whose last sector number wraps
around to a small one. -/
theorem Request.passes_iff (request : Request) :
    request.pos + request.sectors.toUInt64 ≤ UInt64.ofNat capacity ↔
      request.fits ∨ 2 ^ 64 ≤ request.pos.toNat + request.sectors.toNat ∧
        request.pos.toNat + request.sectors.toNat - 2 ^ 64 ≤ capacity := by
  have limit : (UInt64.ofNat capacity).toNat = capacity := by decide
  have low := request.pos.toNat_lt
  have few := request.sectors.toNat_lt
  rw [UInt64.le_iff_toNat_le, UInt64.toNat_add, UInt32.toNat_toUInt64, limit, Request.fits]
  unfold capacity ramblockSize sectorSize
  omega

theorem Request.Sized.neverWraps {request : Request} (sized : request.Sized) (fits : request.fits)
    (disk : Nat → UInt8) (vmalloc : Vmalloc) :
    NeverWraps request.op disk vmalloc request.offset request.segments := by
  apply neverWraps_of_fits
  have range := Request.range_fits fits
  have total := sized.total
  have offset : request.offset.toNat = request.start := Request.offset_toNat fits
  omega

/-- A transfer stays in the disk unless `start_sector + nr_sectors` wraps around to a value within
the capacity and a segment then carries the 32-bit offset past its end. -/
theorem ramblockProcessRequest_inBounds_iff (vmalloc : Vmalloc) (disk : Nat → UInt8)
    (request : Request) (sized : request.Sized) :
    (ramblockProcessRequest vmalloc disk request).InBounds ↔
      (2 ^ 64 ≤ request.pos.toNat + request.sectors.toNat →
        request.pos.toNat + request.sectors.toNat - 2 ^ 64 ≤ capacity →
        NeverWraps request.op disk vmalloc request.offset request.segments) := by
  have transfers : request.op ≠ .other := by
    rcases sized.transfers with reads | writes
    · simp [reads]
    · simp [writes]
  rw [ramblockProcessRequest]
  by_cases passes : request.pos + request.sectors.toUInt64 ≤ UInt64.ofNat capacity
  · simp only [if_neg (UInt64.not_lt.mpr passes), sized.notPassthrough, Bool.false_eq_true, if_false]
    rw [processSegments_inBounds_iff transfers]
    constructor
    · exact fun never _ _ => never
    · intro otherwise
      rcases request.passes_iff.mp passes with fits | ⟨wraps, small⟩
      · exact sized.neverWraps fits disk vmalloc
      · exact otherwise wraps small
  · simp only [if_pos (UInt64.not_le.mp passes)]
    refine iff_of_true (by simp [Result.InBounds]) fun wraps small => ?_
    exact absurd (request.passes_iff.mpr (.inr ⟨wraps, small⟩)) passes

def zeroSector : BioVec := ⟨512, List.replicate 512 0, List.length_replicate⟩

def firstSectors : Request := ⟨0, 2, false, .write, [zeroSector, zeroSector]⟩

theorem ramblockProcessRequest_inBounds_iff_firstSectors : firstSectors.Sized ∧
    (ramblockProcessRequest (fun _ => some []) (fun _ => 0) firstSectors).InBounds := by
  have sized : firstSectors.Sized :=
    ⟨rfl, .inr rfl, by decide, by decide⟩
  exact ⟨sized, (ramblockProcessRequest_inBounds_iff _ _ _ sized).mpr
    fun wraps => absurd wraps (by decide)⟩

def wrappedSector : Request := ⟨0xffffffffffffffff, 1, false, .read, [zeroSector]⟩

theorem ramblockProcessRequest_leaves_disk : wrappedSector.Sized ∧
    (ramblockProcessRequest (fun _ => some []) (fun _ => 0) wrappedSector).accesses =
      [(4294966784, 512)] ∧
    ¬(ramblockProcessRequest (fun _ => some []) (fun _ => 0) wrappedSector).InBounds := by
  have accesses : (ramblockProcessRequest (fun _ => some []) (fun _ => 0) wrappedSector).accesses =
      [(4294966784, 512)] := by decide
  refine ⟨⟨rfl, .inl rfl, by decide, by decide⟩, accesses, ?_⟩
  rw [Result.InBounds, accesses]
  decide

end LearnK.RamBlock
