import LearnK.Lib.Ledger
import LearnK.RamBlock.Core

/-!
The bio module (`bio/main.c`): one sector written and read back while the module loads.  The device
is a parameter, and so is what the kernel answers to the allocations.
-/

namespace LearnK.Bio

open Ledger RamBlock

def enomem : Int := 12

structure Buffer where
  bytes : List UInt8
  sized : bytes.length = sectorSize

/-- What `submit_bio_wait` leaves in the buffer and on the device. -/
abbrev Device (Disk : Type) := ReqOp → UInt64 → Buffer → Disk → Buffer × Disk

inductive Resource
  | bdev
  | readBuffer
  | writeBuffer
  | bio (number : Nat)
  deriving DecidableEq, Repr

inductive Message
  | openFailed
  | submit (sector : UInt64)
  | writeFailed
  | writeSuccess
  | readFailed
  | readSector (text : List UInt8)
  deriving DecidableEq, Repr

/-- A buffer comes with the bytes that happen to be in it; `bioAlloc` answers by the number of bios
allocated before. -/
structure Answers where
  blkdevGet : Int
  kmallocRead : Option Buffer
  kmallocWrite : Option Buffer
  bioAlloc : Nat → Bool

variable {Disk : Type}

structure State (Disk : Type) where
  disk : Disk
  readBuffer : Buffer
  writeBuffer : Buffer
  bios : Nat
  events : List (Event Resource)
  log : List Message

def State.say (state : State Disk) (message : Message) : State Disk :=
  { state with log := state.log ++ [message] }

/-- "Hello, World!" with its NUL. -/
def greeting : List UInt8 := [72, 101, 108, 108, 111, 44, 32, 87, 111, 114, 108, 100, 33, 0]

def Buffer.greet (buffer : Buffer) : Buffer where
  bytes := greeting ++ buffer.bytes.drop greeting.length
  sized := by
    rw [List.length_append, List.length_drop, buffer.sized]
    rfl

def submitCustomBio (device : Device Disk) (answers : Answers) (sector : UInt64) (op : ReqOp)
    (state : State Disk) : Int × State Disk :=
  if answers.bioAlloc state.bios then
    let allocated := { state with
      bios := state.bios + 1
      events := state.events ++ [Event.alloc (Resource.bio state.bios)] }
    if op = .read then
      let submitted := allocated.say (.submit sector)
      let (buffer, disk) := device op sector submitted.readBuffer submitted.disk
      (0, { submitted with readBuffer := buffer, disk := disk })
    else
      let submitted := { allocated with writeBuffer := state.writeBuffer.greet }.say (.submit sector)
      let (buffer, disk) := device op sector submitted.writeBuffer submitted.disk
      (0, { submitted with writeBuffer := buffer, disk := disk })
  else (-enomem, state)

def Buffer.text (buffer : Buffer) : List UInt8 := buffer.bytes.takeWhile (· ≠ 0)

/-- From the first bio to the `cleanup` label. -/
def transferSector (device : Device Disk) (answers : Answers) (state : State Disk) : Int × State Disk :=
  match submitCustomBio device answers 2 .write state with
  | (ret, state) =>
      if ret ≠ 0 then (ret, state.say .writeFailed)
      else
        match submitCustomBio device answers 2 .read (state.say .writeSuccess) with
        | (ret, state) =>
            if ret ≠ 0 then (ret, state.say .readFailed)
            else (0, state.say (.readSector state.readBuffer.text))

structure Outcome (Disk : Type) where
  ret : Int
  disk : Disk
  events : List (Event Resource)
  log : List Message

def myModuleInit (device : Device Disk) (answers : Answers) (disk : Disk) : Outcome Disk :=
  if answers.blkdevGet < 0 then ⟨answers.blkdevGet, disk, [], [.openFailed]⟩
  else
    match answers.kmallocRead, answers.kmallocWrite with
    | some readBuffer, some writeBuffer =>
        let (ret, state) := transferSector device answers ⟨disk, readBuffer, writeBuffer, 0,
          [.alloc .bdev, .alloc .readBuffer, .alloc .writeBuffer], []⟩
        ⟨ret, state.disk, state.events ++ [.free .bdev, .free .readBuffer, .free .writeBuffer], state.log⟩
    | some _, none =>
        ⟨-enomem, disk, [.alloc .bdev, .alloc .readBuffer, .free .bdev, .free .readBuffer], []⟩
    | none, some _ =>
        ⟨-enomem, disk, [.alloc .bdev, .alloc .writeBuffer, .free .bdev, .free .writeBuffer], []⟩
    | none, none => ⟨-enomem, disk, [.alloc .bdev, .free .bdev], []⟩

end LearnK.Bio
