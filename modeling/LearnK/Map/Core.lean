import LearnK.Lib.HList
import LearnK.Lib.StepMachine

/-!
The chained hash table (`map/map.c`) over the kernel's `hashtable.h`.  A node is named by the
block it lies in, and every access to a node checks that the block is allocated.
-/

namespace LearnK.Map

open HList

def htSize : Nat := 128

/-- The buckets, the fields of every `struct my_data`, the blocks that are allocated now and a
record of all that `kmalloc` and `kfree` were given. -/
structure Table where
  links : Links (Fin htSize) Nat
  key : Nat → Int32
  name : Nat → Nat
  live : List Nat
  allocated : List Nat
  freed : List Nat

def Table.empty : Table := ⟨Links.empty, fun _ => 0, fun _ => 0, [], [], []⟩

inductive Fault
  | nullPointer
  | dangling
  | endless
  deriving DecidableEq, Repr

def addElement (hash : Int32 → Fin htSize) (kmalloc : Option Nat) (key : Int32) (name : Nat)
    (table : Table) : Table :=
  match kmalloc with
  | none => table
  | some data =>
      { table with
        links := table.links.addHead data (hash key)
        key := Function.update table.key data key
        name := Function.update table.name data name
        live := data :: table.live
        allocated := table.allocated ++ [data] }

def removeElement (data : Option Nat) (table : Table) : Except Fault Table :=
  match data with
  | none => .error .nullPointer
  | some data =>
      if data ∈ table.live then
        .ok { table with
          links := table.links.delInit data
          live := table.live.erase data
          freed := table.freed ++ [data] }
      else .error .dangling

/-- A walk along more nodes than there are blocks never ends. -/
def getLoop (table : Table) (key : Int32) : Nat → Option Nat → Except Fault (Option Nat)
  | _, none => .ok none
  | 0, some _ => .error .endless
  | fuel + 1, some ptr =>
      if ptr ∈ table.live then
        if table.key ptr = key then .ok (some ptr)
        else getLoop table key fuel (table.links.next ptr)
      else .error .dangling

def getElement (hash : Int32 → Fin htSize) (key : Int32) (table : Table) :
    Except Fault (Option Nat) :=
  getLoop table key table.live.length (table.links.first (hash key))

def clearLoop : Nat → Table → Option Nat → Except Fault Table
  | _, table, none => .ok table
  | 0, _, some _ => .error .endless
  | fuel + 1, table, some ptr =>
      let tmp := table.links.next ptr
      (removeElement (some ptr) table).bind fun table => clearLoop fuel table tmp

def clearBuckets : List (Fin htSize) → Table → Except Fault Table
  | [], table => .ok table
  | btk :: rest, table =>
      (clearLoop table.live.length table (table.links.first btk)).bind fun table =>
        clearBuckets rest table

def clear (table : Table) : Except Fault Table := clearBuckets (List.finRange htSize) table

structure Entry where
  data : Nat
  key : Int32
  name : Nat
  deriving DecidableEq, Repr

def printLoop (table : Table) : Nat → Option Nat → Except Fault (List Entry)
  | _, none => .ok []
  | 0, some _ => .error .endless
  | fuel + 1, some ptr =>
      if ptr ∈ table.live then
        (printLoop table fuel (table.links.next ptr)).map fun rest =>
          ⟨ptr, table.key ptr, table.name ptr⟩ :: rest
      else .error .dangling

def printBuckets (table : Table) : List (Fin htSize) → Except Fault (List Entry)
  | [] => .ok []
  | btk :: rest =>
      (printLoop table table.live.length (table.links.first btk)).bind fun lines =>
        (printBuckets table rest).map fun others => lines ++ others

def printHashTable (table : Table) : Except Fault (List Entry) :=
  printBuckets table (List.finRange htSize)

inductive Op
  | add (key : Int32) (name data : Nat)
  | remove (key : Int32)
  | clear
  deriving DecidableEq, Repr

def step (hash : Int32 → Fin htSize) (table : Table) : Op → Option Table
  | .add key name data => some (addElement hash (some data) key name table)
  | .remove key =>
      ((getElement hash key table).bind fun data => removeElement data table).toOption
  | .clear => (clear table).toOption

def Fresh (table : Table) : Op → Prop
  | .add _ _ data => data ∉ table.live
  | _ => True

instance (table : Table) : ∀ op, Decidable (Fresh table op)
  | .add _ _ _ => inferInstanceAs (Decidable (¬_))
  | .remove _ | .clear => isTrue trivial

end LearnK.Map
