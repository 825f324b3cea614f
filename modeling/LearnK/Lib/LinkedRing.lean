import Mathlib.Data.List.Chain
import Mathlib.Data.List.Nodup
import Mathlib.Logic.Function.Basic

/-! Circular doubly linked lists through a sentinel, over arbitrary addresses.  The links
are two functions, a ring is the list of its nodes without the sentinel, and splicing and
unlinking are updates at two or three addresses. -/

namespace LinkedRing

variable {α : Type*} {next prev : α → α} {head : α} {nodes : List α}

def Links (next prev : α → α) (first second : α) : Prop := next first = second ∧ prev second = first

/-- Following `next` from the sentinel visits the nodes once each and comes back, and `prev` is
the way back. -/
structure Ring (next prev : α → α) (head : α) (nodes : List α) : Prop where
  chain : List.IsChain (Links next prev) (head :: (nodes ++ [head]))
  nodup : (head :: nodes).Nodup

theorem chain_congr {next' prev' : α → α} {path : List α}
    (chain : List.IsChain (Links next prev) path)
    (sameNext : ∀ node ∈ path.dropLast, next' node = next node)
    (samePrev : ∀ node ∈ path.tail, prev' node = prev node) :
    List.IsChain (Links next' prev') path := by
  induction chain with
  | nil => exact .nil
  | singleton node => exact .singleton node
  | cons_cons link rest ih =>
      rename_i first second tail
      refine .cons_cons ⟨?_, ?_⟩ (ih ?_ ?_)
      · rw [sameNext first (by simp)]
        exact link.1
      · rw [samePrev second (by simp)]
        exact link.2
      · intro node member
        exact sameNext node (by simp only [List.dropLast_cons_cons]; exact List.mem_cons_of_mem _ member)
      · intro node member
        exact samePrev node (List.mem_cons_of_mem _ member)

/-- In a path that visits nothing twice apart from its two ends, a link touches neither the
sources before it nor the targets after it. -/
structure Apart (path : List α) : Prop where
  sources : path.dropLast.Nodup
  targets : path.tail.Nodup

theorem Ring.apart (ring : Ring next prev head nodes) : Apart (head :: (nodes ++ [head])) := by
  refine ⟨?_, ?_⟩
  · rw [← List.cons_append, List.dropLast_concat]
    exact ring.nodup
  · have shape : (nodes ++ [head]).Perm (head :: nodes) := List.perm_append_singleton head nodes
    exact shape.nodup_iff.mpr ring.nodup

theorem Apart.split {before after : List α} {first second : α}
    (apart : Apart (before ++ first :: second :: after)) :
    first ∉ before ∧ first ∉ (second :: after).dropLast ∧
      second ∉ (before ++ [first]).tail ∧ second ∉ after := by
  obtain ⟨sources, targets⟩ := apart
  have sourceShape : (before ++ first :: second :: after).dropLast =
      before ++ first :: (second :: after).dropLast := by
    rw [List.dropLast_append_of_ne_nil (by simp), List.dropLast_cons_of_ne_nil (by simp)]
  have targetShape : (before ++ first :: second :: after).tail =
      (before ++ [first]).tail ++ second :: after := by
    cases before <;> simp
  rw [sourceShape, List.nodup_append] at sources
  rw [targetShape, List.nodup_append] at targets
  refine ⟨?_, (List.nodup_cons.mp sources.2.1).1, ?_, (List.nodup_cons.mp targets.2.1).1⟩
  · intro member
    exact sources.2.2 first member first (by simp) rfl
  · intro member
    exact targets.2.2 second member second (by simp) rfl

theorem tail_eq (head : α) (second : List α) :
    second ++ [head] = second.headD head :: (second ++ [head]).tail := by
  cases second <;> rfl

theorem cut_eq (head : α) (first second : List α) :
    head :: (first ++ second ++ [head]) = (head :: first).dropLast ++ first.getLastD head ::
      second.headD head :: (second ++ [head]).tail := by
  have left : head :: first = (head :: first).dropLast ++ [first.getLastD head] := by
    conv_lhs => rw [← List.dropLast_append_getLast (List.cons_ne_nil head first)]
    rw [List.getLast_eq_getLastD]
  calc head :: (first ++ second ++ [head]) = (head :: first) ++ (second ++ [head]) := by simp
    _ = ((head :: first).dropLast ++ [first.getLastD head]) ++
        (second.headD head :: (second ++ [head]).tail) := by rw [← left, ← tail_eq]
    _ = _ := by simp

theorem cut_node_eq (head node : α) (first second : List α) :
    head :: (first ++ node :: second ++ [head]) = (head :: first).dropLast ++ first.getLastD head ::
      node :: second.headD head :: (second ++ [head]).tail := by
  have shape := cut_eq head first (node :: second)
  simp only [List.headD_cons, List.cons_append, List.tail_cons] at shape
  rw [shape, ← tail_eq]

theorem Ring.link_across {first second : List α} (ring : Ring next prev head (first ++ second)) :
    next (first.getLastD head) = second.headD head ∧
      prev (second.headD head) = first.getLastD head := by
  have chain := ring.chain
  rw [cut_eq, List.isChain_append_cons_cons] at chain
  exact chain.2.1

theorem Ring.congr {next' prev' : α → α} (ring : Ring next prev head nodes)
    (sameNext : ∀ node ∈ head :: nodes, next' node = next node)
    (samePrev : ∀ node ∈ head :: nodes, prev' node = prev node) : Ring next' prev' head nodes := by
  refine ⟨chain_congr ring.chain ?_ ?_, ring.nodup⟩
  · intro node member
    rw [← List.cons_append, List.dropLast_concat] at member
    exact sameNext node member
  · intro node member
    apply samePrev node
    simp only [List.tail_cons, List.mem_append, List.mem_singleton] at member
    exact List.mem_cons.mpr member.symm

theorem ring_empty (nextHead : next head = head) (prevHead : prev head = head) :
    Ring next prev head [] :=
  ⟨.cons_cons ⟨nextHead, prevHead⟩ (.singleton head), by simp⟩

theorem Ring.first_mem (ring : Ring next prev head nodes) : next head ∈ head :: nodes := by
  have whole : Ring next prev head ([] ++ nodes) := ring
  have link : next head = nodes.headD head := whole.link_across.1
  rw [link]
  cases nodes <;> simp

theorem chain_unique {start : α} {first second : List α}
    (firstChain : List.IsChain (Links next prev) (start :: (first ++ [head])))
    (secondChain : List.IsChain (Links next prev) (start :: (second ++ [head])))
    (firstOutside : head ∉ first) (secondOutside : head ∉ second) : first = second := by
  induction first generalizing start second with
  | nil =>
      cases second with
      | nil => rfl
      | cons node rest =>
          have one := (List.isChain_cons_cons.mp firstChain).1.1
          have other := (List.isChain_cons_cons.mp secondChain).1.1
          exact absurd (by simp [one.symm.trans other]) secondOutside
  | cons node rest ih =>
      cases second with
      | nil =>
          have one := (List.isChain_cons_cons.mp firstChain).1.1
          have other := (List.isChain_cons_cons.mp secondChain).1.1
          exact absurd (by simp [other.symm.trans one]) firstOutside
      | cons node' rest' =>
          obtain ⟨link, onwards⟩ := List.isChain_cons_cons.mp firstChain
          obtain ⟨link', onwards'⟩ := List.isChain_cons_cons.mp secondChain
          obtain rfl : node = node' := link.1.symm.trans link'.1
          simp only [List.mem_cons, not_or] at firstOutside secondOutside
          rw [ih onwards onwards' firstOutside.2 secondOutside.2]

theorem Ring.unique {nodes' : List α} (ring : Ring next prev head nodes)
    (ring' : Ring next prev head nodes') : nodes = nodes' :=
  chain_unique ring.chain ring'.chain (List.nodup_cons.mp ring.nodup).1
    (List.nodup_cons.mp ring'.nodup).1

section Updates

variable [DecidableEq α]

open Function

theorem chain_splice {before after : List α} {first second new : α}
    (chain : List.IsChain (Links next prev) (before ++ first :: second :: after))
    (apart : Apart (before ++ first :: second :: after))
    (fresh : new ∉ before ++ first :: second :: after) :
    List.IsChain (Links (update (update next new second) first new)
      (update (update prev second new) new first)) (before ++ first :: new :: second :: after) := by
  obtain ⟨firstBefore, firstAfter, secondBefore, secondAfter⟩ := apart.split
  simp only [List.mem_append, List.mem_cons, not_or] at fresh
  obtain ⟨newBefore, newFirst, newSecond, newAfter⟩ := fresh
  rw [List.isChain_append_cons_cons] at chain
  rw [List.isChain_append_cons_cons, List.isChain_cons_cons]
  refine ⟨chain_congr chain.1 ?_ ?_, ⟨by simp, by simp⟩, ⟨?_, ?_⟩, chain_congr chain.2.2 ?_ ?_⟩
  · intro node member
    simp only [List.dropLast_concat] at member
    have notFirst : node ≠ first := fun same => firstBefore (same ▸ member)
    have notNew : node ≠ new := fun same => newBefore (same ▸ member)
    rw [update_of_ne notFirst, update_of_ne notNew]
  · intro node member
    have notSecond : node ≠ second := fun same => secondBefore (same ▸ member)
    have notNew : node ≠ new := by
      intro same
      have inside := List.mem_of_mem_tail member
      simp only [List.mem_append, List.mem_singleton, same] at inside
      exact inside.elim newBefore newFirst
    rw [update_of_ne notNew, update_of_ne notSecond]
  · rw [update_of_ne newFirst, update_self]
  · rw [update_of_ne (Ne.symm newSecond), update_self]
  · intro node member
    have notFirst : node ≠ first := fun same => firstAfter (same ▸ member)
    have notNew : node ≠ new := by
      intro same
      have inside := List.dropLast_subset _ member
      simp only [List.mem_cons, same] at inside
      exact inside.elim newSecond newAfter
    rw [update_of_ne notFirst, update_of_ne notNew]
  · intro node member
    have notSecond : node ≠ second := fun same => secondAfter (same ▸ member)
    have notNew : node ≠ new := fun same => newAfter (same ▸ member)
    rw [update_of_ne notNew, update_of_ne notSecond]

theorem chain_unlink {before after : List α} {first node second dead dead' : α}
    (chain : List.IsChain (Links next prev) (before ++ first :: node :: second :: after))
    (apart : Apart (before ++ first :: node :: second :: after))
    (inner : node ∉ before ++ first :: second :: after) :
    List.IsChain (Links (update (update next first second) node dead)
      (update (update prev second first) node dead')) (before ++ first :: second :: after) := by
  have firstApart := apart.split
  have shape : before ++ first :: node :: second :: after =
      (before ++ [first]) ++ node :: second :: after := by simp
  rw [shape] at apart
  have secondApart := apart.split
  simp only [List.mem_append, List.mem_cons, not_or] at inner
  obtain ⟨nodeBefore, nodeFirst, nodeSecond, nodeAfter⟩ := inner
  rw [List.isChain_append_cons_cons, List.isChain_cons_cons] at chain
  rw [List.isChain_append_cons_cons]
  refine ⟨chain_congr chain.1 ?_ ?_, ⟨?_, ?_⟩, chain_congr chain.2.2.2 ?_ ?_⟩
  · intro other member
    simp only [List.dropLast_concat] at member
    have notFirst : other ≠ first := fun same => firstApart.1 (same ▸ member)
    have notNode : other ≠ node := fun same => nodeBefore (same ▸ member)
    rw [update_of_ne notNode, update_of_ne notFirst]
  · intro other member
    have notNode : other ≠ node := fun same => firstApart.2.2.1 (same ▸ member)
    have notSecond : other ≠ second := by
      intro same
      apply secondApart.2.2.1
      cases before with
      | nil => simp at member
      | cons start rest =>
          simp only [List.cons_append, List.tail_cons] at member ⊢
          exact List.mem_append_left _ (same ▸ member)
    rw [update_of_ne notNode, update_of_ne notSecond]
  · rw [update_of_ne (Ne.symm nodeFirst), update_self]
  · rw [update_of_ne (Ne.symm nodeSecond), update_self]
  · intro other member
    have notNode : other ≠ node := by
      intro same
      have inside := List.dropLast_subset _ member
      simp only [List.mem_cons, same] at inside
      exact inside.elim nodeSecond nodeAfter
    have notFirst : other ≠ first := by
      intro same
      apply firstApart.2.1
      rw [List.dropLast_cons_of_ne_nil (by simp)]
      exact List.mem_cons_of_mem _ (same ▸ member)
    rw [update_of_ne notNode, update_of_ne notFirst]
  · intro other member
    have notNode : other ≠ node := fun same => nodeAfter (same ▸ member)
    have notSecond : other ≠ second := fun same => secondApart.2.2.2 (same ▸ member)
    rw [update_of_ne notNode, update_of_ne notSecond]

theorem Ring.splice {first second : List α} {new : α} (ring : Ring next prev head (first ++ second))
    (fresh : new ∉ head :: (first ++ second)) :
    Ring (update (update next new (second.headD head)) (first.getLastD head) new)
      (update (update prev (second.headD head) new) new (first.getLastD head))
      head (first ++ new :: second) := by
  have chain := ring.chain
  have apart := ring.apart
  have outside : new ∉ head :: (first ++ second ++ [head]) := by
    simp only [List.mem_cons, List.mem_append, List.not_mem_nil, or_false, not_or] at fresh ⊢
    exact ⟨fresh.1, fresh.2, fresh.1⟩
  rw [cut_eq] at chain apart outside
  refine ⟨?_, ?_⟩
  · rw [cut_node_eq]
    exact chain_splice chain apart outside
  · have moved : (head :: (first ++ new :: second)).Perm (new :: head :: (first ++ second)) :=
      (List.perm_middle.cons head).trans (List.Perm.swap new head _)
    exact moved.nodup_iff.mpr (List.nodup_cons.mpr ⟨fresh, ring.nodup⟩)

theorem Ring.unlink {first second : List α} {node dead dead' : α}
    (ring : Ring next prev head (first ++ node :: second)) :
    Ring (update (update next (first.getLastD head) (second.headD head)) node dead)
      (update (update prev (second.headD head) (first.getLastD head)) node dead')
      head (first ++ second) := by
  have chain := ring.chain
  have apart := ring.apart
  have moved : (head :: (first ++ node :: second)).Perm (node :: head :: (first ++ second)) :=
    (List.perm_middle.cons head).trans (List.Perm.swap node head _)
  obtain ⟨absent, distinct⟩ := List.nodup_cons.mp (moved.nodup_iff.mp ring.nodup)
  have outside : node ∉ head :: (first ++ second ++ [head]) := by
    simp only [List.mem_cons, List.mem_append, List.not_mem_nil, or_false, not_or] at absent ⊢
    exact ⟨absent.1, absent.2, absent.1⟩
  rw [cut_node_eq] at chain apart
  rw [cut_eq] at outside
  refine ⟨?_, distinct⟩
  rw [cut_eq]
  exact chain_unlink chain apart outside

end Updates

end LinkedRing
