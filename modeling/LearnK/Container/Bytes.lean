import LearnK.Container.Core
import LearnK.Lib.CInt
import LearnK.Lib.CString

/-!
The containers and `string_new_cap` on byte-addressed memory.  A struct is the bytes its
fields take, whatever size was requested for it; every store is logged with the request of
the struct it is made through and with the other structs that are live at that moment.
-/

namespace LearnK.Container

open ByteMemory CInt CString

inductive Layout
  | listStruct
  | stringView
  deriving DecidableEq, Repr

def Layout.fields : Layout → List (Nat × Nat)
  | .listStruct => [(0, 8), (8, 8), (16, 4)]
  | .stringView => [(0, 8), (8, 4), (16, 8)]

structure Object where
  addr : Nat
  layout : Layout
  requested : Nat
  deriving DecidableEq, Repr

structure Block where
  base : Nat
  size : Nat
  deriving DecidableEq, Repr

structure ByteStore where
  owner : Nat
  start : Nat
  width : Nat
  block : Option Block
  others : List Object
  deriving DecidableEq, Repr

/-- `blocks` are all live blocks, those of other parts of the kernel included. -/
structure ByteHeap where
  mem : Nat → UInt8
  mapped : Nat → Bool
  blocks : List Block
  objects : List Object
  log : List ByteStore

abbrev ByteM : Type → Type := FaultM Fault ByteHeap

def ByteHeap.Mapped (heap : ByteHeap) (start width : Nat) : Prop :=
  ∀ index < width, heap.mapped (start + index) = true

instance (heap : ByteHeap) (start width : Nat) : Decidable (heap.Mapped start width) :=
  inferInstanceAs (Decidable (∀ index < width, _))

def ByteHeap.Vacant (heap : ByteHeap) (addr size : Nat) : Prop :=
  addr ≠ 0 ∧ addr + size ≤ 18446744073709551616 ∧ heap.Mapped addr size ∧
    ∀ block ∈ heap.blocks, addr + size ≤ block.base ∨ block.base + block.size ≤ addr

instance (heap : ByteHeap) (addr size : Nat) : Decidable (heap.Vacant addr size) :=
  inferInstanceAs (Decidable (_ ∧ _ ∧ _ ∧ _))

def ByteHeap.object (heap : ByteHeap) (addr : Nat) : Option Object :=
  heap.objects.find? fun object => object.addr = addr

def load (start width : Nat) : ByteM Nat := fun heap =>
  if heap.Mapped start width then .ok (ofLittleEndian (slice heap.mem start width), heap)
  else .error .invalidAccess

def store (owner start : Nat) (bytes : List UInt8) (block : ByteHeap → Option Block) : ByteM Unit :=
  fun heap =>
    if heap.Mapped start bytes.length then
      .ok ((), { heap with
        mem := blit heap.mem start bytes
        log := ⟨owner, start, bytes.length, block heap,
          heap.objects.filter fun object => object.addr ≠ owner⟩ :: heap.log })
    else .error .invalidAccess

def storeField (owner offset : Nat) (bytes : List UInt8) : ByteM Unit :=
  store owner (owner + offset) bytes fun heap =>
    (heap.object owner).map fun object => ⟨owner, object.requested⟩

def storeBuffer (owner base offset : Nat) (bytes : List UInt8) : ByteM Unit :=
  store owner (base + offset) bytes fun heap => heap.blocks.find? fun block => block.base = base

def allocate (addr size : Nat) : ByteM Unit := fun heap =>
  if heap.Vacant addr size then .ok ((), { heap with blocks := ⟨addr, size⟩ :: heap.blocks })
  else .error .badPlacement

def allocateStruct (layout : Layout) (addr size : Nat) : ByteM Unit := fun heap =>
  (allocate addr size heap).map fun (_, after) =>
    ((), { after with objects := ⟨addr, layout, size⟩ :: after.objects })

def release (addr : Nat) : ByteM Unit := fun heap =>
  match heap.object addr with
  | some object => .ok ((), { heap with
      blocks := heap.blocks.erase ⟨addr, object.requested⟩
      objects := heap.objects.erase object })
  | none => .error .invalidAccess

def loadPointer (start : Nat) : ByteM Addr := do
  let value ← load start 8
  pure (UInt64.ofNat value)

def loadWord (start : Nat) : ByteM Word := do
  let value ← load start 4
  pure (BitVec.ofNat 32 value)

instance : ListMemory ByteM where
  readNext addr := loadPointer addr.toNat
  readPrev addr := loadPointer (addr.toNat + 8)
  readWord addr := loadWord (addr.toNat + 16)
  writeNext addr value := storeField addr.toNat 0 (littleEndian 8 value.toNat)
  writePrev addr value := storeField addr.toNat 8 (littleEndian 8 value.toNat)
  writeWord addr value := storeField addr.toNat 16 (littleEndian 4 value.toNat)
  kmalloc addr size := allocateStruct .listStruct addr.toNat size
  kfree addr := release addr.toNat
  fault reason := fun _ => .error reason

/-- The guard of `string_new_cap`: `int len` against `unsigned long cap`. -/
def lenExceeds (str : Text) (cap : UInt64) : Prop := toU64 (toS32 str.strlen) > cap.toNat

instance (str : Text) (cap : UInt64) : Decidable (lenExceeds str cap) :=
  inferInstanceAs (Decidable (_ > _))

/-- The part of `string_new_cap` after the store to `s->len`; fields are read back from memory
where the source reads them. -/
def stringFill (str : Text) (cap : UInt64) (view buffer : Addr) : ByteM Unit := do
  storeField view.toNat 16 (littleEndian 8 cap.toNat)
  let size ← load (view.toNat + 16) 8
  allocate buffer.toNat size
  storeField view.toNat 0 (littleEndian 8 buffer.toNat)
  let dest ← loadPointer view.toNat
  let count ← load (view.toNat + 8) 4
  storeBuffer view.toNat dest.toNat 0 (strncpyBytes str count)
  let dest ← loadPointer view.toNat
  let len ← load (view.toNat + 8) 4
  storeBuffer view.toNat dest.toNat len [0]

def stringNewCap (str : Text) (cap : UInt64) (view buffer : Addr) : ByteM Unit :=
  if lenExceeds str cap then pure ()
  else do
    allocateStruct .stringView view.toNat sizeofPointer
    storeField view.toNat 8 (littleEndian 4 (toU32 (toS32 str.strlen)).toNat)
    stringFill str cap view buffer

structure World where
  heap : ByteHeap
  containers : List (Kind × Addr)
  ret : Word

inductive WorldOp
  | add (kind : Kind) (container : Addr)
  | push (kind : Kind) (container node : Addr) (value : Word)
  | pop (kind : Kind) (container : Addr)
  | insert (l : Addr) (index : Word) (node : Addr) (value : Word)
  | remove (l : Addr) (index : Word)
  | get (l : Addr) (index : Word)
  | stringNewCap (str : Text) (cap : UInt64) (view buffer : Addr)

def World.call {α : Type} (world : World) (action : ByteM α) (store : α → Word) : Option World :=
  match action world.heap with
  | .ok (value, heap) => some { world with heap := heap, ret := store value }
  | .error _ => none

def World.callOn {α : Type} (world : World) (kind : Kind) (container : Addr) (action : ByteM α)
    (store : α → Word) : Option World :=
  if (kind, container) ∈ world.containers then world.call action store else none

def worldStep (world : World) : WorldOp → Option World
  | .add kind container =>
      (world.call (kind.add container) fun _ => world.ret).map fun next =>
        { next with containers := (kind, container) :: next.containers }
  | .push kind container node value =>
      world.callOn kind container (kind.push container node value) fun _ => world.ret
  | .pop kind container => world.callOn kind container (kind.pop container world.ret) id
  | .insert l index node value =>
      world.callOn .linkList l (linkListInsert l index node value) fun _ => world.ret
  | .remove l index => world.callOn .linkList l (linkListRemove l index) fun _ => world.ret
  | .get l index => world.callOn .linkList l (linkListGet l index world.ret) id
  | .stringNewCap str cap view buffer =>
      world.call (stringNewCap str cap view buffer) fun _ => world.ret

end LearnK.Container
