import LearnK.Lib.Numbered
import LearnK.RbTree.Core

/-!
The mount probe (`hook/khook.c`): overlapping calls of `path_mount`, each with its
`entry_handler` and its `ret_handler`, interleaved over the pool.
-/

namespace LearnK.Hook

open ByteMemory CInt CString SearchTree Function
open LearnK.RbTree (Addr RbNode RbRoot RbRoutines addrs eexist)

structure PtRegs where
  di : UInt64
  si : UInt64
  dx : UInt64
  r10 : UInt64
  r8 : UInt64
  ax : UInt64
  deriving DecidableEq, Repr

def ptRegsParams (regs : PtRegs) : Nat → UInt64
  | 0 => regs.di
  | 1 => regs.si
  | 2 => regs.dx
  | 3 => regs.r10
  | 4 => regs.r8
  | _ => 0

structure MountParams where
  devName : List UInt8
  dirName : List UInt8
  fsType : List UInt8
  flags : UInt64
  deriving DecidableEq, Repr

/-- What the registers of a call point at: characters, a path's dentry as the names from it up
to the root, and the buffer that `get_absolute_path` is given. -/
structure Memory where
  string : UInt64 → Option (Nat → UInt8)
  dentry : UInt64 → Option (List Text)
  buffer : Option (Nat → UInt8)

def pathMax : Nat := 4096

def strncpyFrom (source : Nat → UInt8) (count : Nat) : List UInt8 :=
  let text := (slice source 0 count).takeWhile (· ≠ 0)
  text ++ List.replicate (count - text.length) 0

/-- `snprintf(buffer + *offset, PATH_MAX - *offset, "/%s", name)`; it prints nothing and returns 0
when that size is negative. -/
def printName (name : Text) (path : (Nat → UInt8) × Nat) : (Nat → UInt8) × Nat :=
  let (buffer, offset) := path
  let text := 47 :: name.bytes
  if offset > pathMax then path
  else if offset = pathMax then (buffer, offset + text.length)
  else (blit buffer offset (text.take (pathMax - offset - 1) ++ [0]), offset + text.length)

def buildPath : List Text → (Nat → UInt8) × Nat → (Nat → UInt8) × Nat
  | [], path => path
  | name :: parents, path => printName name (buildPath parents path)

def getAbsolutePath (kmalloc : Option (Nat → UInt8)) (d : List Text) : Option (Nat → UInt8) :=
  kmalloc.map fun buffer => (buildPath d (buffer, 0)).1

def copyParams (memory : Memory) (regs : PtRegs) : Option MountParams :=
  (memory.string (ptRegsParams regs 0)).bind fun devName =>
  (memory.dentry (ptRegsParams regs 1)).bind fun dentry =>
  (getAbsolutePath memory.buffer dentry).bind fun dirName =>
  (memory.string (ptRegsParams regs 2)).map fun typePath =>
    ⟨strncpyFrom devName 256, strncpyFrom dirName 256, strncpyFrom typePath 64,
      ptRegsParams regs 3⟩

structure MyEntry where
  key : UInt64
  params : Addr
  deriving DecidableEq, Repr

structure ProbePool where
  root : RbRoot
  entries : Addr → MyEntry

def ProbePool.keyAt (pool : ProbePool) (entry : Addr) : UInt64 := (pool.entries entry).key

/-- The descent of `insert_node`; nothing where the key is met. -/
def findNew (key : UInt64) (pool : ProbePool) : Option (List Turn) :=
  findSlot (fun node : RbNode => pool.keyAt node.addr) key pool.root

/-- The rest of `insert_node`: `kmalloc` is where the entry goes, and a NULL pointer is followed. -/
def linkNode (routines : RbRoutines) (kmalloc : Option Addr) (key : UInt64) (params : Addr)
    (new : Option (List Turn)) (pool : ProbePool) : Option (Int × ProbePool) :=
  match new with
  | none => some (-eexist, pool)
  | some new => kmalloc.map fun entry =>
      (0, { root := routines.rbInsertColor entry (linkAt ⟨entry, .red⟩ new pool.root)
            entries := update pool.entries entry ⟨key, params⟩ })

def searchNode (key : UInt64) (pool : ProbePool) : Option Addr :=
  (find (fun node : RbNode => pool.keyAt node.addr) key pool.root).map RbNode.addr

def eraseNode (routines : RbRoutines) (entry : Option Addr) (pool : ProbePool) :
    Option Addr × ProbePool :=
  match entry with
  | none => (none, pool)
  | some entry => (some (pool.entries entry).params,
      { pool with root := routines.rbErase entry pool.root })

/-- The next statement of a call: its `entry_handler`, `path_mount` itself, its `ret_handler`. -/
inductive Pc
  | kmalloc
  | copy
  | lockInsert
  | descend
  | link (new : Option (List Turn))
  | unlockInsert
  | printEntry
  | body
  | readAx (regs : Option PtRegs)
  | lockPop
  | search
  | erase (entry : Option Addr)
  | unlockPop
  | printReturn
  | kfree
  | done
  deriving DecidableEq, Repr

/-- `copied` is the record as `entry_handler` left it, `popped` what `pop_params` returned and
`seen` the record that `ret_handler` prints. -/
structure Call where
  ri : UInt64
  regs : Option PtRegs
  memory : Memory
  params : Option Addr
  copied : Option MountParams
  popped : Option Addr
  seen : Option MountParams
  ret : Int
  pc : Pc

structure State where
  pool : ProbePool
  lock : Option Nat
  heap : Addr → MountParams
  live : List Addr
  calls : List Call

def State.initial (entries : Addr → MyEntry) (heap : Addr → MountParams) : State :=
  ⟨⟨.nil, entries⟩, none, heap, [], []⟩

def State.goto (state : State) (self : Nat) (call : Call) : State :=
  { state with calls := state.calls.set self call }

inductive Action
  | call (ri : UInt64) (regs : Option PtRegs) (memory : Memory)
  | run (self : Nat) (kmalloc : Option Addr)
  | ret (self : Nat) (regs : Option PtRegs)

def entryStep (routines : RbRoutines) (self : Nat) (kmalloc : Option Addr) (call : Call)
    (state : State) : Option State :=
  match call.pc with
  | .kmalloc =>
      some { state.goto self { call with params := kmalloc, pc := .copy } with
        live := kmalloc.toList ++ state.live }
  | .copy =>
      match call.regs with
      | none => some (state.goto self { call with pc := .body })
      | some regs =>
          match call.params with
          | none => some (state.goto self { call with pc := .printEntry })
          | some params =>
              if call.ri > 0 then
                (copyParams call.memory regs).map fun record =>
                  { state.goto self { call with copied := some record, pc := .lockInsert } with
                    heap := update state.heap params record }
              else some (state.goto self { call with pc := .printEntry })
  | .lockInsert =>
      if state.lock = none then
        some { state.goto self { call with pc := .descend } with lock := some self }
      else none
  | .descend => some (state.goto self { call with pc := .link (findNew call.ri state.pool) })
  | .link new =>
      call.params.bind fun params =>
        (linkNode routines kmalloc call.ri params new state.pool).map fun (status, pool) =>
          { state.goto self { call with pc := .unlockInsert } with
            pool := pool
            live := if status = 0 then kmalloc.toList ++ state.live else state.live }
  | .unlockInsert =>
      some { state.goto self { call with pc := .printEntry } with lock := none }
  | .printEntry => call.params.map fun _ => state.goto self { call with pc := .body }
  | _ => none

def retStep (routines : RbRoutines) (self : Nat) (call : Call) (state : State) : Option State :=
  match call.pc with
  | .readAx regs => regs.map fun regs =>
      state.goto self { call with ret := toS32 regs.ax.toNat, pc := .lockPop }
  | .lockPop =>
      if state.lock = none then
        some { state.goto self { call with pc := .search } with lock := some self }
      else none
  | .search => some (state.goto self { call with pc := .erase (searchNode call.ri state.pool) })
  | .erase entry =>
      let (popped, pool) := eraseNode routines entry state.pool
      some { state.goto self { call with popped := popped, pc := .unlockPop } with
        pool := pool
        live := entry.elim state.live state.live.erase }
  | .unlockPop =>
      some { state.goto self { call with pc := .printReturn } with lock := none }
  | .printReturn =>
      match call.popped with
      | none => some (state.goto self { call with pc := .done })
      | some params =>
          if params ∈ state.live then
            some (state.goto self { call with seen := some (state.heap params), pc := .kfree })
          else none
  | .kfree =>
      call.popped.map fun params =>
        { state.goto self { call with pc := .done } with live := state.live.erase params }
  | _ => none

def step (routines : RbRoutines) (state : State) : Action → Option State
  | .call ri regs memory =>
      some { state with
        calls := state.calls ++ [⟨ri, regs, memory, none, none, none, none, 0, .kmalloc⟩] }
  | .run self kmalloc => state.calls[self]?.bind fun call =>
      (entryStep routines self kmalloc call state).or (retStep routines self call state)
  | .ret self regs => state.calls[self]?.bind fun call =>
      if call.pc = .body then some (state.goto self { call with pc := .readAx regs }) else none

end LearnK.Hook
