import LearnK.RamBlock.Segments

/-! The RAM block device refines a flat array of sixteen mebibytes: neither the cut into
segments nor the 32-bit offset shows. -/

namespace LearnK.RamBlock

open ByteMemory

/-- What the block layer promises about a file-system request. -/
structure Request.Guaranteed (request : Request) : Prop where
  notPassthrough : request.passthrough = false
  transfers : request.op = .read ∨ request.op = .write
  noOverflow : request.pos.toNat + request.sectors.toNat < 2 ^ 64
  positive : ∀ segment ∈ request.segments, 0 < segment.bvLen.toNat
  total : RamBlock.total request.segments = request.sectors.toNat * sectorSize

def Request.start (request : Request) : Nat := sectorSize * request.pos.toNat

def Request.fits (request : Request) : Prop :=
  request.pos.toNat + request.sectors.toNat ≤ capacity

instance (request : Request) : Decidable request.fits := by
  unfold Request.fits
  infer_instance

abbrev FlatDisk := Fin ramblockSize → UInt8

structure FlatOutcome where
  status : BlkStatus
  data : List UInt8
  disk : FlatDisk

def FlatDisk.write (disk : FlatDisk) (start : Nat) (bytes : List UInt8) : FlatDisk := fun address =>
  if start ≤ address ∧ address < start + bytes.length then bytes.getD (address - start) 0
  else disk address

def FlatDisk.read (disk : FlatDisk) (start length : Nat) : List UInt8 :=
  (List.range length).map fun index =>
    if bound : start + index < ramblockSize then disk ⟨start + index, bound⟩ else 0

def FlatDisk.serve (disk : FlatDisk) (request : Request) : FlatOutcome :=
  if request.fits then
    match request.op with
    | .write => ⟨.ok, concat request.segments, disk.write request.start (concat request.segments)⟩
    | _ => ⟨.ok, disk.read request.start (request.sectors.toNat * sectorSize), disk⟩
  else ⟨.ioerr, concat request.segments, disk⟩

def FlatDisk.serveAll : FlatDisk → List Request → List FlatOutcome
  | _, [] => []
  | disk, request :: rest =>
      let outcome := disk.serve request
      outcome :: FlatDisk.serveAll outcome.disk rest

def flatten (disk : Nat → UInt8) : FlatDisk := fun address => disk address

/-- What a segment with these in front of it holds when the request has been served. -/
def FlatDisk.carried (disk : FlatDisk) (request : Request) (before : List BioVec)
    (segment : BioVec) : List UInt8 :=
  if request.op = .read then disk.read (request.start + total before) segment.bvLen.toNat
  else segment.buffer

/-- Every segment got its block, and a NUL is among its bytes or behind them in that block. -/
def Request.Prints (vmalloc : Vmalloc) (disk : FlatDisk) (request : Request) : Prop :=
  ∀ before segment after, request.segments = before ++ segment :: after →
    printable (vmalloc before.length) (disk.carried request before segment) = true

def PrintsAll : (Nat → Vmalloc) → FlatDisk → List Request → Prop
  | _, _, [] => True
  | vmalloc, disk, request :: rest =>
      (request.fits → request.Prints (vmalloc 0) disk) ∧
        PrintsAll (fun number => vmalloc (number + 1)) (disk.serve request).disk rest

def Served.observed (served : Served) : Option FlatOutcome :=
  served.result.exit.status.map fun status =>
    ⟨status, concat served.result.segments, flatten served.result.disk⟩

theorem Request.check_iff {request : Request}
    (noOverflow : request.pos.toNat + request.sectors.toNat < 2 ^ 64) :
    request.pos + request.sectors.toUInt64 > UInt64.ofNat capacity ↔ ¬request.fits := by
  have limit : (UInt64.ofNat capacity).toNat = capacity := by decide
  rw [gt_iff_lt, UInt64.lt_iff_toNat_lt, UInt64.toNat_add, UInt32.toNat_toUInt64,
    Nat.mod_eq_of_lt noOverflow, limit, Request.fits]
  omega

theorem Request.offset_toNat {request : Request} (fits : request.fits) :
    (request.pos * UInt64.ofNat sectorSize).toUInt32.toNat = request.start := by
  have size : (UInt64.ofNat sectorSize).toNat = 512 := by decide
  have bound : request.pos.toNat ≤ 32768 := Nat.le_trans (Nat.le_add_right _ _) fits
  rw [UInt64.toNat_toUInt32, UInt64.toNat_mul, size, Request.start, sectorSize]
  omega

theorem Request.range_fits {request : Request} (fits : request.fits) :
    request.start + request.sectors.toNat * sectorSize ≤ ramblockSize := by
  unfold Request.fits at fits
  simp only [capacity, ramblockSize, Request.start, sectorSize] at fits ⊢
  omega

/-- One request against the disk it found: in range it ends with `BLK_STS_OK` without reaching the
check inside the loop, beyond the capacity it changes nothing. -/
structure Served.Faithful (served : Served) : Prop where
  inRange : served.request.fits → served.result.exit = .completed
  write : served.request.fits → served.request.op = .write →
    served.result.segments = served.request.segments ∧
      served.result.disk = blit served.before served.request.start (concat served.request.segments)
  read : served.request.fits → served.request.op = .read →
    served.result.disk = served.before ∧
      served.result.segments.map BioVec.bvLen = served.request.segments.map BioVec.bvLen ∧
      concat served.result.segments = slice served.before served.request.start
        (served.request.sectors.toNat * sectorSize)
  beyond : ¬served.request.fits → served.result.exit = .outOfCapacity ∧
    served.result.disk = served.before ∧ served.result.segments = served.request.segments

theorem flatten_blit (disk : Nat → UInt8) (start : Nat) (bytes : List UInt8) :
    flatten (blit disk start bytes) = (flatten disk).write start bytes := by
  funext address
  simp only [flatten, FlatDisk.write]
  by_cases inside : start ≤ address ∧ address < start + bytes.length
  · have below : ¬address.val < start := by omega
    have bound : address.val - start < bytes.length := by omega
    simp [inside, blit, below, List.getD_eq_getElem?_getD, bound]
  · rw [if_neg inside]
    by_cases below : address.val < start
    · exact blit_below disk bytes below
    · exact blit_above disk bytes (by omega)

theorem flatten_read (disk : Nat → UInt8) {start length : Nat} (fits : start + length ≤ ramblockSize) :
    (flatten disk).read start length = slice disk start length := by
  apply List.map_congr_left
  intro index member
  have bound : start + index < ramblockSize := by
    have below := List.mem_range.mp member
    omega
  simp [bound, flatten]

theorem Served.Faithful.observed {served : Served} (guaranteed : served.request.Guaranteed)
    (faithful : served.Faithful) :
    served.observed = some ((flatten served.before).serve served.request) := by
  unfold Served.observed FlatDisk.serve
  by_cases fits : served.request.fits
  · have range := Request.range_fits fits
    rw [faithful.inRange fits, if_pos fits]
    rcases guaranteed.transfers with reads | writes
    · obtain ⟨same, -, data⟩ := faithful.read fits reads
      simp [reads, Exit.status, same, data, flatten_read served.before range]
    · obtain ⟨same, written⟩ := faithful.write fits writes
      simp [writes, Exit.status, same, written, flatten_blit]
  · obtain ⟨rejected, same, segments⟩ := faithful.beyond fits
    rw [rejected, if_neg fits]
    simp [Exit.status, same, segments]

theorem Request.segment_placed {request : Request} (guaranteed : request.Guaranteed)
    (fits : request.fits) {before : List BioVec} {segment : BioVec} {after : List BioVec}
    (shape : request.segments = before ++ segment :: after) :
    (runningOffset request.offset before).toNat = request.start + total before ∧
      request.start + total before + segment.bvLen.toNat ≤ ramblockSize := by
  have range := Request.range_fits fits
  have offset : request.offset.toNat = request.start := Request.offset_toNat fits
  have all := guaranteed.total
  rw [shape, total_split] at all
  refine ⟨?_, by omega⟩
  rw [runningOffset_toNat (by omega), offset]

theorem Request.carried_eq {request : Request} (guaranteed : request.Guaranteed)
    (fits : request.fits) (disk : Nat → UInt8) {before : List BioVec} {segment : BioVec}
    {after : List BioVec} (shape : request.segments = before ++ segment :: after) :
    (segment.carried request.op disk (runningOffset request.offset before)).buffer =
      (flatten disk).carried request before segment := by
  obtain ⟨offset, inside⟩ := Request.segment_placed guaranteed fits shape
  unfold FlatDisk.carried
  rcases guaranteed.transfers with reads | writes
  · rw [reads, if_pos rfl, flatten_read disk inside, ← offset]
    rfl
  · rw [writes, if_neg (by simp)]
    rfl

/-- Of the checks the capacity check alone can refuse such a request. -/
theorem Request.clean_iff_prints {request : Request} (guaranteed : request.Guaranteed)
    (fits : request.fits) (vmalloc : Vmalloc) (disk : Nat → UInt8) :
    request.Clean vmalloc disk ↔ request.Prints vmalloc (flatten disk) := by
  have transfers : request.op ≠ .other := by
    rcases guaranteed.transfers with same | same <;> simp [same]
  constructor
  · intro clean before segment after shape
    rw [← Request.carried_eq guaranteed fits disk shape]
    exact (clean.copies before segment after shape transfers).2
  · intro prints
    refine ⟨?_, guaranteed.notPassthrough, ?_, ?_⟩
    · exact UInt64.not_lt.mp fun refused =>
        (Request.check_iff guaranteed.noOverflow).mp refused fits
    · intro before segment after shape
      obtain ⟨offset, inside⟩ := Request.segment_placed guaranteed fits shape
      exact UInt32.not_lt.mp (offset_in_range (by omega))
    · intro before segment after shape _
      obtain ⟨offset, inside⟩ := Request.segment_placed guaranteed fits shape
      refine ⟨by omega, ?_⟩
      rw [Request.carried_eq guaranteed fits disk shape]
      exact prints before segment after shape

theorem processRequest_faithful_iff (vmalloc : Vmalloc) (disk : Nat → UInt8) {request : Request}
    (guaranteed : request.Guaranteed) :
    Served.Faithful ⟨disk, request, ramblockProcessRequest vmalloc disk request⟩ ↔
      (request.fits → request.Prints vmalloc (flatten disk)) := by
  constructor
  · intro faithful fits
    have completed := faithful.inRange fits
    exact (Request.clean_iff_prints guaranteed fits vmalloc disk).mp
      ((processRequest_completed_iff vmalloc disk request).mp completed)
  · intro prints
    by_cases fits : request.fits
    · have clean := (Request.clean_iff_prints guaranteed fits vmalloc disk).mpr (prints fits)
      have completed := (processRequest_completed_iff vmalloc disk request).mpr clean
      have offset : request.offset.toNat = request.start := Request.offset_toNat fits
      refine ⟨fun _ => completed, fun _ writes => ?_, fun _ reads => ?_,
        fun outside => absurd fits outside⟩
      · have loop := processRequest_completed completed
        simp only at writes
        rw [writes] at loop
        rw [loop] at completed
        simp only [loop]
        rw [← offset]
        exact processSegments_write completed
      · have loop := processRequest_completed completed
        simp only at reads
        rw [reads] at loop
        rw [loop] at completed
        simp only [loop]
        rw [← offset, ← guaranteed.total]
        exact processSegments_read completed
    · have rejected : ramblockProcessRequest vmalloc disk request =
          ⟨.outOfCapacity, disk, request.segments, []⟩ := by
        have check := Request.check_iff guaranteed.noOverflow
        simp only [ramblockProcessRequest, check, fits, not_false_eq_true, if_true]
      rw [rejected]
      exact {
        inRange := fun inside => absurd inside fits
        write := fun inside => absurd inside fits
        read := fun inside => absurd inside fits
        beyond := fun _ => ⟨rfl, rfl, rfl⟩
      }

theorem processRequest_observed_iff (vmalloc : Vmalloc) (disk : Nat → UInt8) {request : Request}
    (guaranteed : request.Guaranteed) :
    Served.observed ⟨disk, request, ramblockProcessRequest vmalloc disk request⟩ =
        some ((flatten disk).serve request) ↔
      (request.fits → request.Prints vmalloc (flatten disk)) := by
  rw [← processRequest_faithful_iff vmalloc disk guaranteed]
  refine ⟨fun observed => ?_, fun faithful => faithful.observed guaranteed⟩
  rw [processRequest_faithful_iff vmalloc disk guaranteed]
  intro fits
  obtain ⟨status, answered, same⟩ := Option.map_eq_some_iff.mp observed
  have ok : status = .ok := by
    have outcome := congrArg FlatOutcome.status same
    rw [FlatDisk.serve, if_pos fits] at outcome
    rcases guaranteed.transfers with reads | writes
    · simpa [reads] using outcome
    · simpa [writes] using outcome
  rw [ok] at answered
  have completed : (ramblockProcessRequest vmalloc disk request).exit = .completed := by
    cases exit : (ramblockProcessRequest vmalloc disk request).exit <;>
      simp [exit, Exit.status] at answered
    rfl
  exact (Request.clean_iff_prints guaranteed fits vmalloc disk).mp
    ((processRequest_completed_iff vmalloc disk request).mp completed)

/-- Over a sequence of requests the driver behaves as the flat array, each request doing exactly what
its sector range says, if and only if every log line on the way can be printed. -/
theorem ramblock_refines_flatDisk_iff (vmalloc : Nat → Vmalloc) (disk : Nat → UInt8)
    (requests : List Request)
    (guaranteed : ∀ request ∈ requests, request.Guaranteed) :
    ((serve vmalloc disk requests).map Served.observed =
        ((flatten disk).serveAll requests).map some ∧
      ∀ served ∈ serve vmalloc disk requests, served.Faithful) ↔
    PrintsAll vmalloc (flatten disk) requests := by
  induction requests generalizing vmalloc disk with
  | nil => simp [serve, FlatDisk.serveAll, PrintsAll]
  | cons request rest ih =>
      have here := guaranteed request (by simp)
      have observed := processRequest_observed_iff (vmalloc 0) disk here
      have faithful := processRequest_faithful_iff (vmalloc 0) disk here
      have later := ih (fun number => vmalloc (number + 1))
        (ramblockProcessRequest (vmalloc 0) disk request).disk
        (fun other member => guaranteed other (by simp [member]))
      simp only [serve, FlatDisk.serveAll, PrintsAll, List.map_cons, List.cons.injEq,
        List.forall_mem_cons, observed, faithful]
      -- once the first request is served, both disks hold the same
      have next : (request.fits → request.Prints (vmalloc 0) (flatten disk)) →
          flatten (ramblockProcessRequest (vmalloc 0) disk request).disk =
            ((flatten disk).serve request).disk := by
        intro prints
        obtain ⟨status, -, same⟩ := Option.map_eq_some_iff.mp (observed.mpr prints)
        exact congrArg FlatOutcome.disk same
      constructor
      · rintro ⟨⟨prints, answers⟩, -, rest⟩
        rw [← next prints] at answers ⊢
        exact ⟨prints, later.mp ⟨answers, rest⟩⟩
      · rintro ⟨prints, rest⟩
        rw [← next prints] at rest ⊢
        obtain ⟨answers, rest⟩ := later.mpr rest
        exact ⟨⟨prints, answers⟩, prints, rest⟩

def halfSector (byte : UInt8) : BioVec := ⟨256, List.replicate 256 byte, List.length_replicate⟩

def twoRequests : List Request :=
  [⟨3, 1, false, .write, [halfSector 1, halfSector 2]⟩, ⟨32767, 2, false, .read,
    [halfSector 0, halfSector 0, halfSector 0, halfSector 0]⟩]

theorem ramblock_refines_flatDisk_iff_twoRequests :
    ((serve (fun _ _ => some [0]) (fun _ => 0) twoRequests).map Served.observed =
        ((flatten fun _ => 0).serveAll twoRequests).map some ∧
      ∀ served ∈ serve (fun _ _ => some [0]) (fun _ => 0) twoRequests, served.Faithful) ∧
    (serve (fun _ _ => some [0]) (fun _ => 0) twoRequests).map (fun served => served.result.exit) =
      [.completed, .outOfCapacity] := by
  have prints : PrintsAll (fun _ _ => some [0]) (flatten fun _ => 0) twoRequests := by
    refine ⟨fun _ before segment after _ => ?_, fun _ before segment after _ => ?_, trivial⟩ <;>
      simp [printable]
  refine ⟨(ramblock_refines_flatDisk_iff (fun _ _ => some [0]) (fun _ => 0) twoRequests ?_).mpr
    prints, ?_⟩
  · intro request member
    simp only [twoRequests, List.mem_cons, List.not_mem_nil, or_false] at member
    rcases member with rfl | rfl <;>
      exact ⟨rfl, by decide, by decide, by decide, by decide⟩
  · decide

def fullPage : BioVec := ⟨4096, List.replicate 4096 1, List.length_replicate⟩

def pageRequest : Request := ⟨0, 8, false, .write, [fullPage]⟩

theorem ramblock_log_leaves_block :
    pageRequest.Guaranteed ∧ pageRequest.fits ∧
      (ramblockProcessRequest (fun _ => some []) (fun _ => 0) pageRequest).exit = .oops ∧
      (serve (fun _ _ => some []) (fun _ => 0) [pageRequest]).map Served.observed ≠
        ((flatten fun _ => 0).serveAll [pageRequest]).map some := by
  have silent (length : Nat) : printable (some []) (List.replicate length 1) = false := by
    simp [printable]
  have faulted : (moveSegment (some []) .write 0 (fun _ => 0) fullPage).faulted = true := by
    simp only [moveSegment, fullPage, silent, Bool.and_false, Bool.not_false]
  have oops : (ramblockProcessRequest (fun _ => some []) (fun _ => 0) pageRequest).exit = .oops := by
    have inCapacity : ¬(0 : UInt64) + (8 : UInt32).toUInt64 > UInt64.ofNat capacity := by decide
    have inRange : ¬(0 : UInt32) + 4096 > UInt32.ofNat ramblockSize := by decide
    have start : ((0 : UInt64) * UInt64.ofNat sectorSize).toUInt32 = 0 := by decide
    have length : fullPage.bvLen = 4096 := rfl
    simp only [ramblockProcessRequest, pageRequest, inCapacity, start, processSegments, length, inRange,
      faulted, if_false, if_true, Bool.false_eq_true]
  refine ⟨⟨rfl, .inr rfl, by decide, by decide, by decide⟩, by decide, oops, ?_⟩
  simp [serve, FlatDisk.serveAll, Served.observed, oops, Exit.status]

end LearnK.RamBlock
