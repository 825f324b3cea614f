import LearnK.Lib.CInt
import LearnK.Lib.CString
import LearnK.Lib.SearchTree
import LearnK.Lib.StepMachine

/-!
The red-black tree module (`rbtree/main.c`).  The tree holds the addresses and colours of
the embedded `rb_node`s; keys and data are read from the entries at those addresses.  The
kernel's own tree routines are a parameter.
-/

namespace LearnK.RbTree

open CInt CString SearchTree Function

abbrev Addr := Nat

inductive Color
  | red
  | black
  deriving DecidableEq, Repr

structure RbNode where
  addr : Addr
  color : Color
  deriving DecidableEq, Repr

abbrev RbRoot := BinaryTree RbNode

def addrs (root : RbRoot) : List Addr := (inorder root).map RbNode.addr

/-- The routines of the kernel's `rbtree.h` that the module calls, with what it relies on. -/
structure RbRoutines where
  rbInsertColor : Addr → RbRoot → RbRoot
  rbErase : Addr → RbRoot → RbRoot
  rbFirst : RbRoot → Option Addr
  rbNext : Addr → RbRoot → Option Addr
  rbInsertColor_addrs : ∀ node root, (addrs root).Nodup → node ∈ addrs root →
    addrs (rbInsertColor node root) = addrs root
  rbErase_addrs : ∀ node root, (addrs root).Nodup → node ∈ addrs root →
    addrs (rbErase node root) = (addrs root).erase node
  rbFirst_eq : ∀ root, rbFirst root = (addrs root).head?
  rbNext_eq : ∀ root before node after, (addrs root).Nodup →
    addrs root = before ++ node :: after → rbNext node root = after.head?

def sizeofData : Nat := 64

structure MyEntry where
  key : Int32
  data : List UInt8
  deriving DecidableEq, Repr

structure MyTree where
  root : RbRoot
  entries : Addr → MyEntry

def MyTree.empty (entries : Addr → MyEntry) : MyTree := ⟨.nil, entries⟩

def MyTree.keyOf (tree : MyTree) (node : RbNode) : Int32 := (tree.entries node.addr).key

def eexist : Int := 17

/-- `entry` is what `kmalloc` answers, if it comes to that; nothing checks it, and the stores through
NULL fault. -/
def insertNode (routines : RbRoutines) (key : Int32) (data : Text) (entry : Addr) (tree : MyTree) :
    Option (Int × MyTree) :=
  match findSlot tree.keyOf key tree.root with
  | none => some (-eexist, tree)
  | some new =>
      if entry = 0 then none
      else
        some (0,
          { root := routines.rbInsertColor entry (linkAt ⟨entry, .red⟩ new tree.root)
            entries := update tree.entries entry ⟨key, strncpyBytes data sizeofData⟩ })

def searchNode (key : Int32) (tree : MyTree) : Option Addr :=
  (find tree.keyOf key tree.root).map RbNode.addr

def deleteNode (routines : RbRoutines) (key : Int32) (tree : MyTree) : MyTree :=
  match searchNode key tree with
  | some entry => { tree with root := routines.rbErase entry tree.root }
  | none => tree

/-- One line of `print_all_entries`; `%s` prints up to the NUL. -/
structure PrintedEntry where
  key : Int32
  data : List UInt8
  deriving DecidableEq, Repr

def cString (data : List UInt8) : List UInt8 := data.takeWhile (· ≠ 0)

def MyTree.line (tree : MyTree) (entry : Addr) : PrintedEntry :=
  ⟨(tree.entries entry).key, cString (tree.entries entry).data⟩

def printLoop (routines : RbRoutines) (tree : MyTree) : Nat → Option Addr → Option (List PrintedEntry)
  | _, none => some []
  | 0, some _ => none
  | fuel + 1, some n =>
      (printLoop routines tree fuel (routines.rbNext n tree.root)).map (tree.line n :: ·)

def printAllEntries (routines : RbRoutines) (fuel : Nat) (tree : MyTree) :
    Option (List PrintedEntry) :=
  printLoop routines tree fuel (routines.rbFirst tree.root)

def endExit (routines : RbRoutines) : Nat → MyTree → Option (List Addr × MyTree)
  | 0, _ => none
  | fuel + 1, tree =>
      match routines.rbFirst tree.root with
      | none => some ([], tree)
      | some entry =>
          (endExit routines fuel { tree with root := routines.rbErase entry tree.root }).map
            fun (freed, final) => (entry :: freed, final)

inductive TreeOp
  | insert (key : Int32) (data : Text) (entry : Addr)
  | delete (key : Int32)

def treeStep (routines : RbRoutines) (tree : MyTree) : TreeOp → Option MyTree
  | .insert key data entry => (insertNode routines key data entry tree).map Prod.snd
  | .delete key => some (deleteNode routines key tree)

def Fresh (tree : MyTree) : TreeOp → Prop
  | .insert key _ entry => (searchNode key tree).isSome = false → entry ≠ 0 → entry ∉ addrs tree.root
  | .delete _ => True

instance (tree : MyTree) (op : TreeOp) : Decidable (Fresh tree op) := by
  cases op <;> unfold Fresh <;> infer_instance

end LearnK.RbTree
