import LearnK.Lib.CString
import LearnK.Lib.CInt

/-!
Dumping a record into one buffer (`dump/dumps.c`): four bytes of `id`, then the characters of
`name` with their NUL.
-/

namespace LearnK.Dump

open ByteMemory CInt CString

/-- An allocated block; `mem` runs past `size` into whatever lies there. -/
structure Block where
  size : Nat
  mem : Nat → UInt8

/-- `strlen(block + offset)`; `none` is a scan that leaves the block. -/
def Block.strlen (block : Block) (offset : Nat) : Option Nat :=
  (nulIndex block.mem (block.size - offset) offset).map fun nul => nul - offset

def Block.string (block : Block) (offset : Nat) : Option (List UInt8) :=
  (block.strlen offset).map fun length => slice block.mem offset length

/-- `struct params`; a NULL `name` is `none`. -/
structure Params where
  id : UInt32
  name : Option Block

inductive Fault
  | nullPointer
  | pastBlock
  deriving DecidableEq, Repr

def sizeofId : Nat := 4

def idBytes (id : UInt32) : List UInt8 := littleEndian sizeofId id.toNat

/-- `len` is an `int` and `dump_alloc` takes a `size_t`. -/
@[irreducible] def marshalSize (length : Nat) : Nat := (toU64 (toS32 (sizeofId + length + 1))).toNat

def Block.store (block : Block) (offset : Nat) (bytes : List UInt8) : Except Fault Block :=
  if offset + bytes.length ≤ block.size then .ok { block with mem := blit block.mem offset bytes }
  else .error .pastBlock

/-- `dumpAlloc` is the answer of the allocation, with the bytes the new block happens to hold. -/
def marshal (dumpAlloc : Option (Nat → UInt8)) (params : Params) : Except Fault (Option Block) :=
  match params.name with
  | none => .error .nullPointer
  | some name =>
      match name.strlen 0 with
      | none => .error .pastBlock
      | some length =>
          match dumpAlloc with
          | none => .ok none
          | some fresh => do
              let buf : Block := ⟨marshalSize length, fresh⟩
              let buf ← buf.store 0 (idBytes params.id)
              let offset := sizeofId
              let buf ← buf.store offset (slice name.mem 0 (length + 1))
              return some buf

def unmarshal (dumpAlloc : Option (Nat → UInt8)) (buf : Block) : Except Fault (Int × Params) :=
  let id := UInt32.ofNat (ofLittleEndian (slice buf.mem 0 sizeofId))
  let offset := sizeofId
  match buf.strlen offset with
  | none => .error .pastBlock
  | some length =>
      match dumpAlloc with
      | none => .ok (-1, ⟨id, none⟩)
      | some fresh =>
          .ok (0, ⟨id, some ⟨length + 1, blit fresh 0 (slice buf.mem offset (length + 1))⟩⟩)

end LearnK.Dump
