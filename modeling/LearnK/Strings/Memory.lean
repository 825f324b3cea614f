import LearnK.Container.Bytes
import LearnK.Strings.Session

/-!
The strings in byte-addressed memory, where a view takes 24 bytes although 8 are requested for it.
The allocator is one whose smallest object has 24 bytes, so that no two objects share a byte; each
call is told where its allocations are put.
-/

namespace LearnK.Strings

open ByteMemory CInt CString DataType
open Container (Addr Block ByteHeap ByteM load loadPointer storeField storeBuffer allocate
  allocateStruct release sizeofPointer lenExceeds stringFill)

def sizeofView : Nat := 24

def reach (size : Nat) : Nat := max size sizeofView

def Roomy (heap : ByteHeap) (addr size : Nat) : Prop :=
  addr ≠ 0 ∧ addr + reach size ≤ 18446744073709551616 ∧ heap.Mapped addr (reach size) ∧
    ∀ block ∈ heap.blocks, addr + reach size ≤ block.base ∨ block.base + reach block.size ≤ addr

instance (heap : ByteHeap) (addr size : Nat) : Decidable (Roomy heap addr size) :=
  inferInstanceAs (Decidable (_ ∧ _ ∧ _ ∧ _))

def leaveIn (mem : Nat → UInt8) (start size : Nat) (garbage : Nat → UInt8) : Nat → UInt8 := fun addr =>
  if start ≤ addr ∧ addr < start + size then garbage (addr - start) else mem addr

def grant (addr : Addr) (size : Nat) : ByteM Unit := fun heap =>
  if Roomy heap addr.toNat size then .ok ((), heap) else .error .badPlacement

def leave (addr : Addr) (size : Nat) (garbage : Nat → UInt8) : ByteM Unit := fun heap =>
  .ok ((), { heap with mem := leaveIn heap.mem addr.toNat size garbage })

def kfree (base : Addr) : ByteM Unit := fun heap =>
  match heap.blocks.find? fun block => block.base = base.toNat with
  | some block => .ok ((), { heap with blocks := heap.blocks.erase block })
  | none => .error .invalidAccess

/-- `new` may be where the block is already. -/
def krealloc (old : Addr) (size : Nat) (new : Addr) (garbage : Nat → UInt8) : ByteM Unit := fun heap =>
  match heap.blocks.find? fun block => block.base = old.toNat with
  | none => .error .invalidAccess
  | some block =>
      let others := heap.blocks.erase block
      let kept := fun index =>
        if index < block.size then heap.mem (old.toNat + index) else garbage index
      if Roomy { heap with blocks := if new = old then others else heap.blocks } new.toNat size then
        .ok ((), { heap with
          blocks := ⟨new.toNat, size⟩ :: others
          mem := leaveIn heap.mem new.toNat size kept })
      else .error .badPlacement

/-- `string_new_cap`; NULL is 0.  It is told where the view and the buffer are put. -/
def stringNewCapAt (new : NewCap) (view buffer : Addr) : ByteM Addr :=
  if lenExceeds new.str new.cap ∨ new.kmallocView = false then pure 0
  else do
    grant view sizeofPointer
    allocateStruct .stringView view.toNat sizeofPointer
    storeField view.toNat 8 (littleEndian 4 (toU32 (toS32 new.str.strlen)).toNat)
    match new.kmallocStr with
    | none => do
        storeField view.toNat 16 (littleEndian 8 new.cap.toNat)
        storeField view.toNat 0 (littleEndian 8 0)
        release view.toNat
        pure 0
    | some garbage => do
        grant buffer new.cap.toNat
        leave buffer new.cap.toNat garbage
        stringFill new.str new.cap view buffer
        pure view

/-- The loop of `string_growup`; its result is `need_realloc`. -/
def growLoopAt (view : Addr) (request : Nat) : Nat → Bool → ByteM Bool
  | 0, _ => fun _ => .error .diverges
  | fuel + 1, needRealloc => do
      let cap ← load (view.toNat + 16) 8
      if request ≥ cap then do
        storeField view.toNat 16 (littleEndian 8 (growStep cap))
        growLoopAt view request fuel true
      else pure needRealloc

def stringGrowupAt (fuel : Nat) (answer : Option (Nat → UInt8)) (new view : Addr) (request : Nat) :
    ByteM Unit := do
  let needRealloc ← growLoopAt view request fuel false
  if needRealloc then do
    let str ← loadPointer view.toNat
    let cap ← load (view.toNat + 16) 8
    match answer with
    | none => storeField view.toNat 0 (littleEndian 8 0)
    | some garbage => do
        krealloc str cap new garbage
        storeField view.toNat 0 (littleEndian 8 new.toNat)
  else pure ()

def nulAt (dest : Addr) : Nat → Nat → ByteM Nat
  | 0, _ => fun _ => .error .diverges
  | fuel + 1, index => do
      let char ← load (dest.toNat + index) 1
      if char = 0 then pure index else nulAt dest fuel (index + 1)

def joinAppendAt (fuel : Nat) (view : Addr) (str : Text) : ByteM Unit := do
  let dest ← loadPointer view.toNat
  let cap ← load (view.toNat + 16) 8
  let len ← load (view.toNat + 8) 4
  let nul ← nulAt dest fuel 0
  storeBuffer view.toNat dest.toNat nul (strncatBytes str (toU64 (cap - len)).toNat)
  let len ← load (view.toNat + 8) 4
  storeField view.toNat 8 (littleEndian 4 (toU32 (len + toU32 str.strlen)).toNat)
  let dest ← loadPointer view.toNat
  let len ← load (view.toNat + 8) 4
  storeBuffer view.toNat dest.toNat len [0]

def stringJoinAt (fuel : Nat) (joined : Joined) (new view : Addr) : ByteM Unit := do
  let len ← load (view.toNat + 8) 4
  let cap ← load (view.toNat + 16) 8
  let request := (toU32 (len + toU32 joined.str.strlen)).toNat
  if request ≥ cap then do
    stringGrowupAt fuel joined.krealloc new view request
    joinAppendAt fuel view joined.str
  else joinAppendAt fuel view joined.str

def stringView (heap : ByteHeap) (base len cap size : Nat) : StringView :=
  ⟨some ⟨fun index => heap.mem (base + index), size⟩, len, cap, []⟩

def bufferAt (base : Addr) : ByteM (Option Buffer) := fun heap =>
  .ok ((heap.blocks.find? fun block => block.base = base.toNat).map fun block =>
    ⟨fun index => heap.mem (base.toNat + index), block.size⟩, heap)

def viewAt (view : Addr) : ByteM StringView := do
  let str ← loadPointer view.toNat
  let len ← load (view.toNat + 8) 4
  let cap ← load (view.toNat + 16) 8
  let buffer ← bufferAt str
  pure ⟨buffer, len, cap, []⟩

/-- The copy that `string_char` or `string_substring` made lies in a block of its own, which the
caller prints and frees. -/
def readCopy (buffer : Buffer) (copy : Addr) : ByteM Answer := do
  grant copy buffer.size
  leave copy buffer.size buffer.data
  allocate copy.toNat buffer.size
  let copied ← bufferAt copy
  match copied.bind Buffer.string with
  | none => fun _ => .error .invalidAccess
  | some text => do
      kfree copy
      pure (.str text)

def readCopied (made : Option (Option Buffer)) (copy : Addr) : ByteM Answer :=
  match made with
  | none => fun _ => .error .invalidAccess
  | some none => pure .null
  | some (some buffer) => readCopy buffer copy

def answered : Option Answer → ByteM Answer
  | some answer => pure answer
  | none => fun _ => .error .invalidAccess

/-- An observer stores nothing into a string, so it sees the view and the buffer of the call. -/
def stringQueryAt (query : Query) (copy view : Addr) : ByteM Answer := do
  let s ← viewAt view
  match query with
  | .char kmalloc => readCopied (stringChar kmalloc s) copy
  | .substring kmalloc start stop => readCopied (stringSubstring kmalloc s start stop) copy
  | other => answered (stringQuery s other)

def stringFree (view : Addr) : ByteM Unit := do
  let str ← loadPointer view.toNat
  if str = 0 then release view.toNat
  else do
    kfree str
    storeField view.toNat 0 (littleEndian 8 0)
    release view.toNat

inductive PlacedCall
  | make (new : NewCap) (view buffer : Addr)
  | change (self : Nat) (joined : Joined) (new : Addr)
  | ask (self : Nat) (query : Query) (copy : Addr)
  | free (self : Nat)

def PlacedCall.call : PlacedCall → Call NewCap Joined Query
  | .make new _ _ => .make new
  | .change self joined _ => .change self joined
  | .ask self query _ => .ask self query
  | .free self => .free self

structure Caller where
  heap : ByteHeap
  client : Client Answer Addr

def Caller.after {α : Type} (caller : Caller) (action : ByteM α)
    (record : α → Client Answer Addr → Client Answer Addr) : Except Container.Fault Caller :=
  match action caller.heap with
  | .ok (value, heap) => .ok ⟨heap, record value caller.client⟩
  | .error fault => .error fault

/-- A string that the caller does not have faults. -/
def placedStep (caller : Caller) : PlacedCall → Except Container.Fault Caller
  | .make new view buffer =>
      caller.after (stringNewCapAt new view buffer) fun s client =>
        { client with handles := client.handles ++ [.made (if s = 0 then none else some s)] }
  | .change self joined new =>
      match caller.client.handles[self]? with
      | some (.live view) => caller.after (stringJoinAt 4097 joined new view) fun _ client => client
      | _ => .error .invalidAccess
  | .ask self query copy =>
      match caller.client.handles[self]? with
      | some (.live view) => caller.after (stringQueryAt query copy view) fun answer client =>
          { client with answers := client.answers ++ [answer] }
      | _ => .error .invalidAccess
  | .free self =>
      match caller.client.handles[self]? with
      | some .null => .ok caller
      | some (.live view) => caller.after (stringFree view) fun _ client => client.put self .freed
      | _ => .error .invalidAccess

end LearnK.Strings
