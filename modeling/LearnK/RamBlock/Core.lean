import LearnK.Lib.ByteMemory

/-!
The RAM block device (`bdev/main.c`).  `ramblock_process_request` works with a 64-bit
sector number, a 32-bit running offset and an `int` segment length, and all three are
kept at their widths here.
-/

namespace LearnK.RamBlock

open ByteMemory

def ramblockSize : Nat := 16 * 1024 * 1024

def sectorSize : Nat := 512

def capacity : Nat := ramblockSize / sectorSize

inductive BlkStatus
  | ok
  | ioerr
  deriving DecidableEq, Repr

inductive ReqOp
  | read
  | write
  | other
  deriving DecidableEq, Repr

structure BioVec where
  bvLen : UInt32
  buffer : List UInt8
  sized : buffer.length = bvLen.toNat

structure Request where
  pos : UInt64
  sectors : UInt32
  passthrough : Bool
  op : ReqOp
  segments : List BioVec

/-- How a request leaves the function; `oops` is a fault inside it. -/
inductive Exit
  | outOfCapacity
  | passthrough
  | segmentOutOfRange
  | completed
  | oops
  deriving DecidableEq, Repr

def Exit.status : Exit → Option BlkStatus
  | .outOfCapacity | .passthrough | .segmentOutOfRange => some .ioerr
  | .completed => some .ok
  | .oops => none

structure Result where
  exit : Exit
  disk : Nat → UInt8
  segments : List BioVec
  accesses : List (Nat × Nat)

/-- `memcpy` takes the `int` length as a `size_t`, so a negative one becomes huge. -/
def copySize (bvLen : UInt32) : Nat :=
  if bvLen.toNat < 2 ^ 31 then bvLen.toNat else bvLen.toNat + (2 ^ 64 - 2 ^ 32)

def BioVec.fill (segment : BioVec) (disk : Nat → UInt8) (offset : Nat) : BioVec where
  bvLen := segment.bvLen
  buffer := slice disk offset segment.bvLen.toNat
  sized := slice_length _ _ _

/-- The answers of `vmalloc` to the segments of a request, call by call: NULL, or a block together
with the bytes that follow it up to its guard page. -/
abbrev Vmalloc := Nat → Option (List UInt8)

def Vmalloc.later (vmalloc : Vmalloc) : Vmalloc := fun call => vmalloc (call + 1)

/-- `memcpy` of the bytes into `data`, and the `%s` that prints it: only an empty copy may go to NULL,
and a block is read up to a NUL in it or behind it. -/
def printable (data : Option (List UInt8)) (bytes : List UInt8) : Bool :=
  match data with
  | none => bytes.isEmpty
  | some beyond => (bytes ++ beyond).contains 0

structure Moved where
  disk : Nat → UInt8
  segment : BioVec
  accesses : List (Nat × Nat)
  faulted : Bool

/-- The body of the segment loop after its range check.  A copy that leaves `ramblock_data` faults,
and so does one whose log line cannot be printed. -/
def moveSegment (data : Option (List UInt8)) (op : ReqOp) (offset : UInt32) (disk : Nat → UInt8)
    (segment : BioVec) : Moved :=
  let length := copySize segment.bvLen
  let inside := decide (offset.toNat + length ≤ ramblockSize)
  match op with
  | .read =>
      let filled := segment.fill disk offset.toNat
      ⟨disk, filled, [(offset.toNat, length)], !(inside && printable data filled.buffer)⟩
  | .write =>
      ⟨blit disk offset.toNat segment.buffer, segment, [(offset.toNat, length)],
        !(inside && printable data segment.buffer)⟩
  | .other => ⟨disk, segment, [], false⟩

def processSegments (op : ReqOp) : Vmalloc → List BioVec → UInt32 → (Nat → UInt8) → Result
  | _, [], _, disk => ⟨.completed, disk, [], []⟩
  | vmalloc, segment :: rest, offset, disk =>
      if offset + segment.bvLen > UInt32.ofNat ramblockSize then
        ⟨.segmentOutOfRange, disk, segment :: rest, []⟩
      else
        let moved := moveSegment (vmalloc 0) op offset disk segment
        if moved.faulted then ⟨.oops, moved.disk, moved.segment :: rest, moved.accesses⟩
        else
          let result := processSegments op vmalloc.later rest (offset + segment.bvLen) moved.disk
          ⟨result.exit, result.disk, moved.segment :: result.segments,
            moved.accesses ++ result.accesses⟩

def ramblockProcessRequest (vmalloc : Vmalloc) (disk : Nat → UInt8) (request : Request) : Result :=
  let startSector := request.pos
  let nrSectors := request.sectors
  let offset := (startSector * UInt64.ofNat sectorSize).toUInt32
  if startSector + nrSectors.toUInt64 > UInt64.ofNat capacity then
    ⟨.outOfCapacity, disk, request.segments, []⟩
  else if request.passthrough then ⟨.passthrough, disk, request.segments, []⟩
  else processSegments request.op vmalloc request.segments offset disk

structure Served where
  before : Nat → UInt8
  request : Request
  result : Result

/-- The requests one after the other; `vmalloc` answers each of them by its number. -/
def serve : (Nat → Vmalloc) → (Nat → UInt8) → List Request → List Served
  | _, _, [] => []
  | vmalloc, disk, request :: rest =>
      let result := ramblockProcessRequest (vmalloc 0) disk request
      ⟨disk, request, result⟩ :: serve (fun number => vmalloc (number + 1)) result.disk rest

end LearnK.RamBlock
