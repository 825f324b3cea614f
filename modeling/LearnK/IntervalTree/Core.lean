import Mathlib.Data.Finset.Basic
import LearnK.Lib.CInt

/-!
The interval tree module (`rbtree/interval_tree.c`).  The kernel's interval tree is a parameter,
known by the addresses of its nodes in ascending order of `start`; the intervals themselves are read
from the values at those addresses.
-/

namespace LearnK.IntervalTree

open CInt Function

abbrev Addr := Nat

structure IntervalTreeNode where
  start : UInt64
  last : UInt64
  deriving DecidableEq, Repr

/-- Its `node` is the first member, so `container_of` keeps the address. -/
structure NodeValue where
  node : IntervalTreeNode
  data : Int32
  deriving DecidableEq, Repr

def IntervalTreeNode.overlaps (node : IntervalTreeNode) (start last : UInt64) : Bool :=
  node.start ≤ last && start ≤ node.last

def Ascending (nodeAt : Addr → IntervalTreeNode) (nodes : List Addr) : Prop :=
  nodes.Pairwise fun first second => (nodeAt first).start ≤ (nodeAt second).start

def hits (nodeAt : Addr → IntervalTreeNode) (nodes : List Addr) (start last : UInt64) : List Addr :=
  nodes.filter fun node => (nodeAt node).overlaps start last

/-- The routines of the kernel's `interval_tree.h` that the module calls, with what it relies on. -/
structure IntervalRoutines (Root : Type) where
  rbRootCached : Root
  nodes : Root → List Addr
  treeInsert : (Addr → IntervalTreeNode) → Addr → Root → Root
  treeRemove : Addr → Root → Root
  iterFirst : (Addr → IntervalTreeNode) → Root → UInt64 → UInt64 → Option Addr
  iterNext : (Addr → IntervalTreeNode) → Root → Addr → UInt64 → UInt64 → Option Addr
  rbRootCached_nodes : nodes rbRootCached = []
  treeInsert_nodes : ∀ nodeAt node root, Ascending nodeAt (nodes root) → node ∉ nodes root →
    (nodes (treeInsert nodeAt node root)).Perm (node :: nodes root) ∧
      Ascending nodeAt (nodes (treeInsert nodeAt node root))
  treeRemove_nodes : ∀ node root, (nodes root).Nodup → node ∈ nodes root →
    nodes (treeRemove node root) = (nodes root).erase node
  iterFirst_eq : ∀ nodeAt root start last, Ascending nodeAt (nodes root) → (nodes root).Nodup →
    iterFirst nodeAt root start last = (hits nodeAt (nodes root) start last).head?
  iterNext_eq : ∀ nodeAt root start last before node after, Ascending nodeAt (nodes root) →
    (nodes root).Nodup → hits nodeAt (nodes root) start last = before ++ node :: after →
    iterNext nodeAt root node start last = after.head?

structure Tree (Root : Type) where
  root : Root
  values : Addr → NodeValue
  live : Finset Addr

variable {Root : Type}

def Tree.nodeAt (tree : Tree Root) (node : Addr) : IntervalTreeNode := (tree.values node).node

/-- The loop of `search`; it fails only when it has not ended within the fuel. -/
def searchLoop (routines : IntervalRoutines Root) (tree : Tree Root) (start last : UInt64) :
    Nat → Option Addr → Option Addr → Option (Option Addr)
  | _, none, nv => some nv
  | 0, some _, _ => none
  | fuel + 1, some node, _ =>
      searchLoop routines tree start last fuel
        (routines.iterNext tree.nodeAt tree.root node start last) (some node)

/-- `nv` is what the uninitialised variable of that name holds. -/
def search (routines : IntervalRoutines Root) (fuel : Nat) (nv : Option Addr) (tree : Tree Root)
    (start last : UInt64) : Option (Option Addr) :=
  searchLoop routines tree start last fuel (routines.iterFirst tree.nodeAt tree.root start last) nv

def insert (routines : IntervalRoutines Root) (kmalloc : Option Addr) (start last : UInt64)
    (data : Int32) (tree : Tree Root) : Tree Root :=
  match kmalloc with
  | none => tree
  | some nv =>
      let values := update tree.values nv ⟨⟨start, last⟩, data⟩
      { root := routines.treeInsert (fun node => (values node).node) nv tree.root
        values := values
        live := Insert.insert nv tree.live }

/-- Unlinking a node that is not in the tree follows whatever pointers lie there. -/
inductive Fault
  | notStored
  deriving DecidableEq, Repr

def unlinkFree (routines : IntervalRoutines Root) (nv : Addr) (tree : Tree Root) :
    Except Fault (Tree Root) :=
  if nv ∈ routines.nodes tree.root then
    .ok { tree with root := routines.treeRemove nv tree.root, live := tree.live.erase nv }
  else .error .notStored

def remove (routines : IntervalRoutines Root) (fuel : Nat) (garbage : Option Addr)
    (start last : UInt64) (tree : Tree Root) : Option (Except Fault (Tree Root)) :=
  (search routines fuel garbage tree start last).map fun nv =>
    match nv with
    | none => .ok tree
    | some nv => unlinkFree routines nv tree

def removeAll (routines : IntervalRoutines Root) :
    Nat → Tree Root → Option (Except Fault (Tree Root))
  | 0, _ => none
  | fuel + 1, tree =>
      match routines.iterFirst tree.nodeAt tree.root 0 18446744073709551615 with
      | none => some (.ok tree)
      | some nv =>
          match unlinkFree routines nv tree with
          | .ok after => removeAll routines fuel after
          | .error fault => some (.error fault)

end LearnK.IntervalTree
