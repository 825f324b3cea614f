import Mathlib.Data.Tree.Basic
import Mathlib.Order.Lattice
import Mathlib.Data.List.Nodup

/-! Binary search trees of any shape, judged by their in-order sequence.  A descent along the
keys either meets the key or stops at the slot where a node with that key may be linked. -/

namespace SearchTree

variable {α κ : Type*}

def inorder : BinaryTree α → List α
  | .nil => []
  | .node value left right => inorder left ++ value :: inorder right

@[simp] theorem inorder_nil : inorder (.nil : BinaryTree α) = [] := rfl

@[simp] theorem inorder_node (value : α) (left right : BinaryTree α) :
    inorder (.node value left right) = inorder left ++ value :: inorder right := rfl

inductive Turn
  | left
  | right
  deriving DecidableEq, Repr

/-- Putting a leaf at the end of a path; a path that runs off the tree changes nothing. -/
def linkAt (new : α) : List Turn → BinaryTree α → BinaryTree α
  | [], .nil => .node new .nil .nil
  | .left :: slot, .node value left right => .node value (linkAt new slot left) right
  | .right :: slot, .node value left right => .node value left (linkAt new slot right)
  | _, tree => tree

section Keys

variable [LinearOrder κ] (key : α → κ)

def find (wanted : κ) : BinaryTree α → Option α
  | .nil => none
  | .node value left right =>
      if wanted < key value then find wanted left
      else if wanted > key value then find wanted right
      else some value

def findSlot (wanted : κ) : BinaryTree α → Option (List Turn)
  | .nil => some []
  | .node value left right =>
      if wanted < key value then (findSlot wanted left).map (Turn.left :: ·)
      else if wanted > key value then (findSlot wanted right).map (Turn.right :: ·)
      else none

def Ordered (values : List α) : Prop := values.Pairwise fun first second => key first < key second

variable {key}

theorem Ordered.nodup {values : List α} (ordered : Ordered key values) : values.Nodup :=
  List.Pairwise.imp (fun less same => ne_of_lt less (congrArg key same)) ordered

theorem Ordered.injective {values : List α} (ordered : Ordered key values) {first second : α}
    (firstMember : first ∈ values) (secondMember : second ∈ values)
    (same : key first = key second) : first = second := by
  have distinct : (values.map key).Nodup := List.pairwise_map.mpr (ordered.imp ne_of_lt)
  exact List.inj_on_of_nodup_map distinct firstMember secondMember same

theorem Ordered.insert {before after : List α} {new : α} (ordered : Ordered key (before ++ after))
    (less : ∀ value ∈ before, key value < key new) (more : ∀ value ∈ after, key new < key value) :
    Ordered key (before ++ new :: after) := by
  rw [Ordered, List.pairwise_append] at ordered ⊢
  obtain ⟨beforeOrdered, afterOrdered, across⟩ := ordered
  refine ⟨beforeOrdered, List.pairwise_cons.mpr ⟨more, afterOrdered⟩, ?_⟩
  intro value member other inRest
  rcases List.mem_cons.mp inRest with rfl | inAfter
  · exact less value member
  · exact across value member other inAfter

theorem ordered_node {value : α} {left right : BinaryTree α}
    (ordered : Ordered key (inorder (.node value left right))) :
    Ordered key (inorder left) ∧ Ordered key (inorder right) ∧
      (∀ other ∈ inorder left, key other < key value) ∧
      ∀ other ∈ inorder right, key value < key other := by
  rw [Ordered, inorder_node, List.pairwise_append, List.pairwise_cons] at ordered
  obtain ⟨leftOrdered, ⟨above, rightOrdered⟩, across⟩ := ordered
  refine ⟨leftOrdered, rightOrdered, ?_, above⟩
  intro other member
  exact across other member value (by simp)

theorem find_mem {wanted : κ} {tree : BinaryTree α} {value : α}
    (found : find key wanted tree = some value) : value ∈ inorder tree ∧ key value = wanted := by
  induction tree with
  | nil => simp [find] at found
  | node here left right leftIh rightIh =>
      rw [find] at found
      split at found
      · obtain ⟨member, same⟩ := leftIh found
        exact ⟨by simp [member], same⟩
      · split at found
        · obtain ⟨member, same⟩ := rightIh found
          exact ⟨by simp [member], same⟩
        · rename_i notBelow notAbove
          obtain rfl := Option.some.inj found
          exact ⟨by simp, le_antisymm (not_lt.mp notBelow) (not_lt.mp notAbove)⟩

theorem find_none {wanted : κ} {tree : BinaryTree α} (ordered : Ordered key (inorder tree))
    (missing : find key wanted tree = none) : ∀ value ∈ inorder tree, key value ≠ wanted := by
  induction tree with
  | nil => simp
  | node here left right leftIh rightIh =>
      obtain ⟨leftOrdered, rightOrdered, below, above⟩ := ordered_node ordered
      rw [find] at missing
      intro value member
      rw [inorder_node, List.mem_append, List.mem_cons] at member
      split at missing
      · rename_i smaller
        rcases member with inLeft | rfl | inRight
        · exact leftIh leftOrdered missing value inLeft
        · exact ne_of_gt smaller
        · exact ne_of_gt (lt_trans smaller (above value inRight))
      · split at missing
        · rename_i larger
          rcases member with inLeft | rfl | inRight
          · exact ne_of_lt (lt_trans (below value inLeft) larger)
          · exact ne_of_lt larger
          · exact rightIh rightOrdered missing value inRight
        · simp at missing

theorem findSlot_eq_none_iff (wanted : κ) (tree : BinaryTree α) :
    findSlot key wanted tree = none ↔ (find key wanted tree).isSome = true := by
  induction tree with
  | nil => simp [findSlot, find]
  | node here left right leftIh rightIh =>
      rw [findSlot, find]
      split
      · rw [Option.map_eq_none_iff]
        exact leftIh
      · split
        · rw [Option.map_eq_none_iff]
          exact rightIh
        · simp

theorem inorder_linkAt {wanted : κ} {tree : BinaryTree α} {slot : List Turn}
    (ordered : Ordered key (inorder tree)) (found : findSlot key wanted tree = some slot) :
    ∃ before after, inorder tree = before ++ after ∧
      (∀ value ∈ before, key value < wanted) ∧ (∀ value ∈ after, wanted < key value) ∧
      ∀ new, inorder (linkAt new slot tree) = before ++ new :: after := by
  induction tree generalizing slot with
  | nil =>
      obtain rfl : [] = slot := Option.some.inj found
      exact ⟨[], [], rfl, by simp, by simp, fun _ => rfl⟩
  | node here left right leftIh rightIh =>
      obtain ⟨leftOrdered, rightOrdered, below, above⟩ := ordered_node ordered
      rw [findSlot] at found
      split at found
      · rename_i smaller
        obtain ⟨rest, foundRest, rfl⟩ := Option.map_eq_some_iff.mp found
        obtain ⟨before, after, shape, less, more, linked⟩ := leftIh leftOrdered foundRest
        refine ⟨before, after ++ here :: inorder right, ?_, less, ?_, ?_⟩
        · rw [inorder_node, shape, List.append_assoc]
        · intro value member
          rw [List.mem_append, List.mem_cons] at member
          rcases member with inAfter | rfl | inRight
          · exact more value inAfter
          · exact smaller
          · exact lt_trans smaller (above value inRight)
        · intro new
          rw [linkAt, inorder_node, linked new]
          simp
      · split at found
        · rename_i larger
          obtain ⟨rest, foundRest, rfl⟩ := Option.map_eq_some_iff.mp found
          obtain ⟨before, after, shape, less, more, linked⟩ := rightIh rightOrdered foundRest
          refine ⟨inorder left ++ here :: before, after, ?_, ?_, more, ?_⟩
          · rw [inorder_node, shape]
            simp
          · intro value member
            rw [List.mem_append, List.mem_cons] at member
            rcases member with inLeft | rfl | inBefore
            · exact lt_trans (below value inLeft) larger
            · exact larger
            · exact less value inBefore
          · intro new
            rw [linkAt, inorder_node, linked new]
            simp
        · simp at found

end Keys

end SearchTree
