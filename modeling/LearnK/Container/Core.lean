import LearnK.Lib.FaultM
import LearnK.Lib.StepMachine

/-!
The containers of `list/container.c` over the kernel's `list_head` rings.  The functions
are written once against the memory operations they use; here they run on a heap of whole
structs, where reading or writing a struct that is not allocated is a fault.
-/

namespace LearnK.Container

abbrev Addr := UInt64

abbrev Word := BitVec 32

def listPoison1 : Addr := 0xdead000000000100
def listPoison2 : Addr := 0xdead000000000122

/-- What every constructor asks `kmalloc` for: the size of a pointer to its struct. -/
def sizeofPointer : Nat := 8

inductive Fault
  | badPlacement
  | invalidAccess
  | diverges
  deriving DecidableEq, Repr

/-- The memory under the list code.  `struct listNode` and the three containers all are a
`list_head` followed by an `int`; a struct is named by its address, and `kmalloc` is told the
address the allocator picks. -/
class ListMemory (m : Type → Type) where
  readNext : Addr → m Addr
  readPrev : Addr → m Addr
  readWord : Addr → m Word
  writeNext : Addr → Addr → m Unit
  writePrev : Addr → Addr → m Unit
  writeWord : Addr → Word → m Unit
  kmalloc : Addr → Nat → m Unit
  kfree : Addr → m Unit
  fault : Fault → m Unit

section Source

variable {m : Type → Type} [Monad m] [ListMemory m]

open ListMemory

def initListHead (head : Addr) : m Unit := do
  writeNext head head
  writePrev head head

def listAddBetween (new prev next : Addr) : m Unit := do
  writePrev next new
  writeNext new next
  writePrev new prev
  writeNext prev new

def listAdd (new head : Addr) : m Unit := do
  let next ← readNext head
  listAddBetween new head next

def listAddTail (new head : Addr) : m Unit := do
  let prev ← readPrev head
  listAddBetween new prev head

def listDel (entry : Addr) : m Unit := do
  let prev ← readPrev entry
  let next ← readNext entry
  writePrev next prev
  writeNext prev next
  writeNext entry listPoison1
  writePrev entry listPoison2

def addNode (node : Addr) (value : Word) : m Unit := do
  kmalloc node sizeofPointer
  initListHead node
  writeWord node value

def addContainer (container : Addr) : m Unit := do
  kmalloc container sizeofPointer
  initListHead container
  writeWord container 0

def addLinkList (l : Addr) : m Unit := addContainer l
def addQueue (q : Addr) : m Unit := addContainer q
def addStack (s : Addr) : m Unit := addContainer s

def pushWith (add : Addr → Addr → m Unit) (container node : Addr) (value : Word) : m Unit := do
  addNode node value
  add node container
  let count ← readWord container
  writeWord container (count + 1)

def linkListPush (l node : Addr) (value : Word) : m Unit := pushWith listAddTail l node value
def enqueue (q node : Addr) (value : Word) : m Unit := pushWith listAddTail q node value
def stackPush (s node : Addr) (value : Word) : m Unit := pushWith listAdd s node value

def isVacant (container : Addr) : m Bool := do
  let count ← readWord container
  if count = 0 then pure true
  else do
    let next ← readNext container
    pure (next == container)

/-- `ret` is `*ret` before the call, the result `*ret` after it. -/
def linkListPop (l : Addr) (ret : Word) : m Word := do
  let vacant ← isVacant l
  if vacant then pure ret
  else do
    let ptr ← readNext l
    if ptr = 0 then pure ret
    else do
      listDel ptr
      let value ← readWord ptr
      kfree ptr
      let count ← readWord l
      writeWord l (count - 1)
      pure value

/-- The body `dequeue` and `stack_pop` share; unlike `link_list_pop` it counts first and frees
last. -/
def takeFirst (container : Addr) (ret : Word) : m Word := do
  let vacant ← isVacant container
  if vacant then pure ret
  else do
    let ptr ← readNext container
    listDel ptr
    let count ← readWord container
    writeWord container (count - 1)
    let value ← readWord ptr
    kfree ptr
    pure value

def dequeue (q : Addr) (ret : Word) : m Word := takeFirst q ret
def stackPop (s : Addr) (ret : Word) : m Word := takeFirst s ret

/-- `list_for_each_safe (pos, idx, &l->head)` with `act(idx)` and `break` once `index` is zero.
The decrement wraps, so the loop ends within `index` rounds read as unsigned. -/
def atIndexLoop (l : Addr) (act : Addr → m Unit) : Nat → Addr → Word → m Unit
  | 0, _, _ => fault .diverges
  | fuel + 1, pos, index => do
      let idx ← readNext pos
      if pos = l then pure ()
      else if index = 0 then act idx
      else atIndexLoop l act fuel idx (index - 1)

def atIndex (l : Addr) (index : Word) (act : Addr → m Unit) : m Unit := do
  let vacant ← isVacant l
  if vacant then pure ()
  else do
    let count ← readWord l
    if count.sle index then pure ()
    else do
      let pos ← readNext l
      atIndexLoop l act (index.toNat + 1) pos index

def linkListInsert (l : Addr) (index : Word) (node : Addr) (value : Word) : m Unit :=
  atIndex l index fun idx => do
    addNode node value
    listAdd node idx

def linkListRemove (l : Addr) (index : Word) : m Unit := atIndex l index listDel

/-- The `list_for_each` of `link_list_get`, which stores every value it passes in `*ret`. -/
def getLoop (l : Addr) : Nat → Addr → Word → Word → m Word
  | 0, _, _, ret => do
      fault .diverges
      pure ret
  | fuel + 1, pos, index, ret => do
      if pos = l then pure ret
      else do
        let value ← readWord pos
        if index = 0 then pure value
        else do
          let next ← readNext pos
          getLoop l fuel next (index - 1) value

def linkListGet (l : Addr) (index ret : Word) : m Word := do
  let vacant ← isVacant l
  if vacant then pure ret
  else do
    let count ← readWord l
    if count.sle index then pure ret
    else do
      let pos ← readNext l
      getLoop l (index.toNat + 1) pos index ret

def containerLen (container : Addr) : m Word := readWord container

def linkListLen (l : Addr) : m Word := containerLen l
def queueLen (q : Addr) : m Word := containerLen q
def stackLen (s : Addr) : m Word := containerLen s

inductive Kind
  | linkList
  | queue
  | stack
  deriving DecidableEq, Repr

def Kind.add : Kind → Addr → m Unit
  | .linkList => addLinkList
  | .queue => addQueue
  | .stack => addStack

def Kind.push : Kind → Addr → Addr → Word → m Unit
  | .linkList => linkListPush
  | .queue => enqueue
  | .stack => stackPush

def Kind.pop : Kind → Addr → Word → m Word
  | .linkList => linkListPop
  | .queue => dequeue
  | .stack => stackPop

def Kind.len : Kind → Addr → m Word
  | .linkList => linkListLen
  | .queue => queueLen
  | .stack => stackLen

end Source

structure Heap where
  next : Addr → Addr
  prev : Addr → Addr
  word : Addr → Word
  live : Addr → Bool

def Heap.Free (heap : Heap) (addr : Addr) : Prop :=
  heap.live addr = false ∧ addr ≠ 0 ∧ addr ≠ listPoison1 ∧ addr ≠ listPoison2

instance (heap : Heap) (addr : Addr) : Decidable (heap.Free addr) :=
  inferInstanceAs (Decidable (_ ∧ _))

abbrev CellM : Type → Type := FaultM Fault Heap

def CellM.access {α : Type} (addr : Addr) (result : Heap → α × Heap) : CellM α := fun heap =>
  if heap.live addr then .ok (result heap) else .error .invalidAccess

open Function in
instance : ListMemory CellM where
  readNext addr := CellM.access addr fun heap => (heap.next addr, heap)
  readPrev addr := CellM.access addr fun heap => (heap.prev addr, heap)
  readWord addr := CellM.access addr fun heap => (heap.word addr, heap)
  writeNext addr value := CellM.access addr fun heap =>
    ((), { heap with next := update heap.next addr value })
  writePrev addr value := CellM.access addr fun heap =>
    ((), { heap with prev := update heap.prev addr value })
  writeWord addr value := CellM.access addr fun heap =>
    ((), { heap with word := update heap.word addr value })
  kmalloc addr _ := fun heap =>
    if heap.Free addr then .ok ((), { heap with live := update heap.live addr true })
    else .error .badPlacement
  kfree addr := CellM.access addr fun heap => ((), { heap with live := update heap.live addr false })
  fault reason := fun _ => .error reason

end LearnK.Container
