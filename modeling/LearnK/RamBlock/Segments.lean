import LearnK.RamBlock.Core

/-! The segment loop by itself: when it gets through, and what it has done then. -/

namespace LearnK.RamBlock

open ByteMemory

def concat (segments : List BioVec) : List UInt8 := segments.flatMap BioVec.buffer

def total (segments : List BioVec) : Nat := (segments.map fun segment => segment.bvLen.toNat).sum

def Request.offset (request : Request) : UInt32 :=
  (request.pos * UInt64.ofNat sectorSize).toUInt32

def runningOffset (offset : UInt32) (segments : List BioVec) : UInt32 :=
  segments.foldl (fun offset segment => offset + segment.bvLen) offset

/-- What the segment holds when its turn is over, and what is printed of it. -/
def BioVec.carried (op : ReqOp) (disk : Nat → UInt8) (offset : UInt32) (segment : BioVec) : BioVec :=
  match op with
  | .read => segment.fill disk offset.toNat
  | .write | .other => segment

def BioVec.Copies (data : Option (List UInt8)) (op : ReqOp) (disk : Nat → UInt8) (offset : UInt32)
    (segment : BioVec) : Prop :=
  offset.toNat + segment.bvLen.toNat ≤ ramblockSize ∧
    printable data (segment.carried op disk offset).buffer = true

theorem ramblockSize_toNat : (UInt32.ofNat ramblockSize).toNat = ramblockSize := by decide

theorem copySize_small {bvLen : UInt32} (small : bvLen.toNat ≤ ramblockSize) :
    copySize bvLen = bvLen.toNat := by
  unfold ramblockSize at small
  unfold copySize
  rw [if_pos (by omega)]

theorem le_copySize (bvLen : UInt32) : bvLen.toNat ≤ copySize bvLen := by
  unfold copySize
  split
  · exact Nat.le_refl _
  · omega

theorem copySize_inside_iff (offset bvLen : UInt32) :
    offset.toNat + copySize bvLen ≤ ramblockSize ↔ offset.toNat + bvLen.toNat ≤ ramblockSize := by
  constructor
  · intro inside
    have atLeast := le_copySize bvLen
    omega
  · intro inside
    rw [copySize_small (by omega)]
    exact inside

theorem offset_add_toNat {offset bvLen : UInt32} (fits : offset.toNat + bvLen.toNat ≤ ramblockSize) :
    (offset + bvLen).toNat = offset.toNat + bvLen.toNat := by
  unfold ramblockSize at fits
  rw [UInt32.toNat_add, Nat.mod_eq_of_lt (by omega)]

theorem offset_in_range {offset bvLen : UInt32} (fits : offset.toNat + bvLen.toNat ≤ ramblockSize) :
    ¬offset + bvLen > UInt32.ofNat ramblockSize := by
  rw [gt_iff_lt, UInt32.lt_iff_toNat_lt, offset_add_toNat fits, ramblockSize_toNat]
  omega

theorem moveSegment_sound_iff (data : Option (List UInt8)) (op : ReqOp) (offset : UInt32)
    (disk : Nat → UInt8) (segment : BioVec) :
    (moveSegment data op offset disk segment).faulted = false ↔
      (op ≠ .other → segment.Copies data op disk offset) := by
  cases op with
  | read | write => simp [moveSegment, BioVec.Copies, BioVec.carried, copySize_inside_iff]
  | other => simp [moveSegment]

theorem moveSegment_segment (data : Option (List UInt8)) (op : ReqOp) (offset : UInt32)
    (disk : Nat → UInt8) (segment : BioVec) :
    (moveSegment data op offset disk segment).segment = segment.carried op disk offset := by
  cases op <;> rfl

theorem carried_moved (data : Option (List UInt8)) (op : ReqOp) (offset there : UInt32)
    (disk : Nat → UInt8) (segment other : BioVec) :
    other.carried op (moveSegment data op offset disk segment).disk there =
      other.carried op disk there := by
  cases op <;> rfl

theorem forall_split_cons {α : Type} {P : List α → α → Prop} (first : α) (rest : List α) :
    (∀ before here after, first :: rest = before ++ here :: after → P before here) ↔
      P [] first ∧ ∀ before here after, rest = before ++ here :: after → P (first :: before) here := by
  constructor
  · intro each
    refine ⟨each [] first rest rfl, ?_⟩
    rintro before here after rfl
    exact each (first :: before) here after rfl
  · rintro ⟨front, later⟩ before here after shape
    cases before with
    | nil =>
        obtain ⟨rfl, -⟩ := List.cons.inj shape
        exact front
    | cons other before =>
        obtain ⟨rfl, same⟩ := List.cons.inj shape
        exact later before here after same

theorem processSegments_completed_iff (op : ReqOp) (vmalloc : Vmalloc) (segments : List BioVec)
    (offset : UInt32) (disk : Nat → UInt8) :
    (processSegments op vmalloc segments offset disk).exit = .completed ↔
      (∀ before segment after, segments = before ++ segment :: after →
        runningOffset offset before + segment.bvLen ≤ UInt32.ofNat ramblockSize) ∧
      (∀ before segment after, segments = before ++ segment :: after → op ≠ .other →
        segment.Copies (vmalloc before.length) op disk (runningOffset offset before)) := by
  induction segments generalizing vmalloc offset disk with
  | nil => simp [processSegments]
  | cons segment rest ih =>
      rw [forall_split_cons, forall_split_cons, processSegments]
      have sound := moveSegment_sound_iff (vmalloc 0) op offset disk segment
      by_cases inRange : offset + segment.bvLen ≤ UInt32.ofNat ramblockSize
      · rw [if_neg (UInt32.not_lt.mpr inRange)]
        cases faulted : (moveSegment (vmalloc 0) op offset disk segment).faulted with
        | true =>
            rw [faulted] at sound
            simp only [faulted, if_true, reduceCtorEq, false_iff]
            rintro ⟨-, copies, -⟩
            exact absurd (sound.mpr copies) (by simp)
        | false =>
            simp only [faulted, Bool.false_eq_true, if_false]
            rw [ih]
            simp only [BioVec.Copies, carried_moved]
            exact ⟨fun ⟨ranges, copies⟩ => ⟨⟨inRange, ranges⟩, sound.mp faulted, copies⟩,
              fun ⟨ranges, copies⟩ => ⟨ranges.2, copies.2⟩⟩
      · rw [if_pos (UInt32.not_le.mp inRange)]
        simp only [reduceCtorEq, false_iff]
        rintro ⟨ranges, -⟩
        exact inRange ranges.1

theorem processSegments_cons {op : ReqOp} {vmalloc : Vmalloc} {segment : BioVec} {rest : List BioVec}
    {offset : UInt32} {disk : Nat → UInt8}
    (completed : (processSegments op vmalloc (segment :: rest) offset disk).exit = .completed) :
    let moved := moveSegment (vmalloc 0) op offset disk segment
    let later := processSegments op vmalloc.later rest (offset + segment.bvLen) moved.disk
    moved.faulted = false ∧ later.exit = .completed ∧
      (processSegments op vmalloc (segment :: rest) offset disk).disk = later.disk ∧
      (processSegments op vmalloc (segment :: rest) offset disk).segments =
        moved.segment :: later.segments := by
  rw [processSegments] at completed ⊢
  dsimp only at completed ⊢
  split_ifs at completed ⊢ with outOfRange faulted
  exact ⟨by simpa using faulted, completed, rfl, rfl⟩

theorem processSegments_write {vmalloc : Vmalloc} {segments : List BioVec} {offset : UInt32}
    {disk : Nat → UInt8}
    (completed : (processSegments .write vmalloc segments offset disk).exit = .completed) :
    (processSegments .write vmalloc segments offset disk).segments = segments ∧
      (processSegments .write vmalloc segments offset disk).disk =
        blit disk offset.toNat (concat segments) := by
  induction segments generalizing vmalloc offset disk with
  | nil => exact ⟨rfl, (blit_nil disk _).symm⟩
  | cons segment rest ih =>
      obtain ⟨alive, finished, stored, kept⟩ := processSegments_cons completed
      obtain ⟨inside, -⟩ := (moveSegment_sound_iff ..).mp alive (by simp)
      obtain ⟨same, written⟩ := ih finished
      rw [stored, kept, written, same, offset_add_toNat inside, ← segment.sized]
      exact ⟨rfl, blit_append disk offset.toNat segment.buffer _⟩

theorem processSegments_read {vmalloc : Vmalloc} {segments : List BioVec} {offset : UInt32}
    {disk : Nat → UInt8}
    (completed : (processSegments .read vmalloc segments offset disk).exit = .completed) :
    (processSegments .read vmalloc segments offset disk).disk = disk ∧
      (processSegments .read vmalloc segments offset disk).segments.map BioVec.bvLen =
        segments.map BioVec.bvLen ∧
      concat (processSegments .read vmalloc segments offset disk).segments =
        slice disk offset.toNat (total segments) := by
  induction segments generalizing vmalloc offset with
  | nil => exact ⟨rfl, rfl, rfl⟩
  | cons segment rest ih =>
      obtain ⟨alive, finished, stored, kept⟩ := processSegments_cons completed
      obtain ⟨inside, -⟩ := (moveSegment_sound_iff ..).mp alive (by simp)
      obtain ⟨same, lengths, data⟩ := ih finished
      rw [offset_add_toNat inside] at data
      rw [stored, kept]
      refine ⟨same, congrArg (segment.bvLen :: ·) lengths, ?_⟩
      have split : total (segment :: rest) = segment.bvLen.toNat + total rest := rfl
      rw [split, slice_append]
      exact congrArg (slice disk offset.toNat segment.bvLen.toNat ++ ·) data

theorem processSegments_other {vmalloc : Vmalloc} {segments : List BioVec} {offset : UInt32}
    {disk : Nat → UInt8}
    (completed : (processSegments .other vmalloc segments offset disk).exit = .completed) :
    (processSegments .other vmalloc segments offset disk).disk = disk := by
  induction segments generalizing vmalloc offset with
  | nil => rfl
  | cons segment rest ih =>
      obtain ⟨-, finished, stored, -⟩ := processSegments_cons completed
      rw [stored]
      exact ih finished

theorem runningOffset_toNat {offset : UInt32} {segments : List BioVec}
    (fits : offset.toNat + total segments ≤ ramblockSize) :
    (runningOffset offset segments).toNat = offset.toNat + total segments := by
  induction segments generalizing offset with
  | nil => rfl
  | cons segment rest ih =>
      have split : total (segment :: rest) = segment.bvLen.toNat + total rest := rfl
      have next : (offset + segment.bvLen).toNat = offset.toNat + segment.bvLen.toNat :=
        offset_add_toNat (by omega)
      rw [runningOffset, List.foldl_cons, ← runningOffset, ih (by omega), next, split, Nat.add_assoc]

theorem total_split (before : List BioVec) (segment : BioVec) (after : List BioVec) :
    total (before ++ segment :: after) = total before + segment.bvLen.toNat + total after := by
  simp [total, Nat.add_assoc]

/-- The request meets every check of the code, each in the arithmetic it is made in, and its copies
and log lines do not fault. -/
structure Request.Clean (vmalloc : Vmalloc) (disk : Nat → UInt8) (request : Request) : Prop where
  inCapacity : request.pos + request.sectors.toUInt64 ≤ UInt64.ofNat capacity
  notPassthrough : request.passthrough = false
  inRange : ∀ before segment after, request.segments = before ++ segment :: after →
    runningOffset request.offset before + segment.bvLen ≤ UInt32.ofNat ramblockSize
  copies : ∀ before segment after, request.segments = before ++ segment :: after →
    request.op ≠ .other →
      segment.Copies (vmalloc before.length) request.op disk (runningOffset request.offset before)

theorem processRequest_completed_iff (vmalloc : Vmalloc) (disk : Nat → UInt8) (request : Request) :
    (ramblockProcessRequest vmalloc disk request).exit = .completed ↔ request.Clean vmalloc disk := by
  rw [ramblockProcessRequest]
  by_cases inCapacity : request.pos + request.sectors.toUInt64 ≤ UInt64.ofNat capacity
  · rw [if_neg (UInt64.not_lt.mpr inCapacity)]
    cases passthrough : request.passthrough with
    | true =>
        refine iff_of_false (by simp) ?_
        intro clean
        simp [clean.notPassthrough] at passthrough
    | false =>
        simp only [Bool.false_eq_true, if_false]
        rw [processSegments_completed_iff]
        exact ⟨fun checks => ⟨inCapacity, passthrough, checks.1, checks.2⟩,
          fun clean => ⟨clean.inRange, clean.copies⟩⟩
  · rw [if_pos (UInt64.not_le.mp inCapacity)]
    refine iff_of_false (by simp) ?_
    intro clean
    exact inCapacity clean.inCapacity

theorem processRequest_completed {vmalloc : Vmalloc} {disk : Nat → UInt8} {request : Request}
    (completed : (ramblockProcessRequest vmalloc disk request).exit = .completed) :
    ramblockProcessRequest vmalloc disk request =
      processSegments request.op vmalloc request.segments request.offset disk := by
  rw [ramblockProcessRequest] at completed ⊢
  split_ifs at completed ⊢
  rfl

end LearnK.RamBlock
