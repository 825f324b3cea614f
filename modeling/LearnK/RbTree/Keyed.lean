import LearnK.RbTree.Core

/-! The kernel's trees under any key that is read at the address of a node: a search, a new node
and a deletion, as facts about the sequence of addresses. -/

namespace LearnK.RbTree

open SearchTree

variable {κ : Type*} [LinearOrder κ] {keyAt : Addr → κ} {root : RbRoot}

theorem ordered_addrs_iff (keyAt : Addr → κ) (root : RbRoot) :
    Ordered (fun node : RbNode => keyAt node.addr) (inorder root) ↔ Ordered keyAt (addrs root) := by
  rw [Ordered, Ordered, addrs, List.pairwise_map]

theorem find_addr_some {wanted : κ} {entry : Addr}
    (found : (find (fun node : RbNode => keyAt node.addr) wanted root).map RbNode.addr = some entry) :
    entry ∈ addrs root ∧ keyAt entry = wanted := by
  obtain ⟨node, foundNode, rfl⟩ := Option.map_eq_some_iff.mp found
  obtain ⟨member, same⟩ := find_mem foundNode
  exact ⟨List.mem_map_of_mem member, same⟩

theorem find_addr_none {wanted : κ} (ordered : Ordered keyAt (addrs root))
    (missing : (find (fun node : RbNode => keyAt node.addr) wanted root).map RbNode.addr = none) :
    ∀ entry ∈ addrs root, keyAt entry ≠ wanted := by
  have absent := find_none ((ordered_addrs_iff keyAt root).mpr ordered)
    (Option.map_eq_none_iff.mp missing)
  intro entry member
  obtain ⟨node, inTree, rfl⟩ := List.mem_map.mp member
  exact absent node inTree

theorem insert_addrs (routines : RbRoutines) {wanted : κ} {slot : List Turn} {entry : Addr}
    (ordered : Ordered keyAt (addrs root))
    (found : findSlot (fun node : RbNode => keyAt node.addr) wanted root = some slot)
    (outside : entry ∉ addrs root) :
    ∃ before after, addrs root = before ++ after ∧
      addrs (routines.rbInsertColor entry (linkAt ⟨entry, .red⟩ slot root)) =
        before ++ entry :: after ∧
      (∀ other ∈ before, keyAt other < wanted) ∧ ∀ other ∈ after, wanted < keyAt other := by
  obtain ⟨before, after, shape, less, more, linked⟩ :=
    inorder_linkAt ((ordered_addrs_iff keyAt root).mpr ordered) found
  have split : addrs root = before.map RbNode.addr ++ after.map RbNode.addr := by
    rw [addrs, shape, List.map_append]
  have whole : addrs (linkAt ⟨entry, .red⟩ slot root) =
      before.map RbNode.addr ++ entry :: after.map RbNode.addr := by
    rw [addrs, linked, List.map_append, List.map_cons]
  have nodup : (addrs (linkAt ⟨entry, .red⟩ slot root)).Nodup := by
    rw [whole, List.nodup_middle, ← split, List.nodup_cons]
    exact ⟨outside, ordered.nodup⟩
  refine ⟨before.map RbNode.addr, after.map RbNode.addr, split, ?_, ?_, ?_⟩
  · rw [routines.rbInsertColor_addrs entry _ nodup (by rw [whole]; simp), whole]
  · intro other member
    obtain ⟨node, inBefore, rfl⟩ := List.mem_map.mp member
    exact less node inBefore
  · intro other member
    obtain ⟨node, inAfter, rfl⟩ := List.mem_map.mp member
    exact more node inAfter

theorem RbRoutines.first_erased (routines : RbRoutines) {entry : Addr} {rest : List Addr}
    (nodup : (addrs root).Nodup) (shape : addrs root = entry :: rest) :
    routines.rbFirst root = some entry ∧ addrs (routines.rbErase entry root) = rest ∧
      (addrs (routines.rbErase entry root)).Nodup := by
  have erased := routines.rbErase_addrs entry root nodup (by simp [shape])
  rw [shape, List.erase_cons_head] at erased
  refine ⟨by rw [routines.rbFirst_eq, shape, List.head?_cons], erased, ?_⟩
  rw [erased]
  rw [shape] at nodup
  exact (List.nodup_cons.mp nodup).2

end LearnK.RbTree
