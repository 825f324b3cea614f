import Mathlib.Data.Finset.Union
import Mathlib.Data.Multiset.Basic
import LearnK.Lib.StepMachine
import LearnK.IntervalTree.Search

/-! Runs of `insert` and `remove` as a bag of intervals with their data: `remove` takes the overlapping
one that starts last, and `remove_all` gives every node back. -/

namespace LearnK.IntervalTree

open CInt Function StepMachine

/-- `kmalloc` is the answer to an `insert`, `garbage` what the variable of `search` starts with. -/
inductive TreeOp
  | insert (kmalloc : Option Addr) (start last : UInt64) (data : Int32)
  | remove (garbage : Option Addr) (start last : UInt64)

variable {Root : Type}

def step (routines : IntervalRoutines Root) (tree : Tree Root) : TreeOp → Option (Tree Root)
  | .insert kmalloc start last data =>
      if ∀ nv ∈ kmalloc, nv ∉ tree.live then some (insert routines kmalloc start last data tree) else none
  | .remove garbage start last =>
      (remove routines (routines.nodes tree.root).length garbage start last tree).bind Except.toOption

/-- A removal that overlaps nothing is harmless only if the variable happens to be NULL. -/
def Defined (routines : IntervalRoutines Root) (tree : Tree Root) : TreeOp → Prop
  | .insert .. => True
  | .remove garbage start last => garbage = none ∨ tree.hits routines start last ≠ []

def Fresh (tree : Tree Root) : TreeOp → Prop
  | .insert kmalloc .. => ∀ nv ∈ kmalloc, nv ∉ tree.live
  | .remove .. => True

abbrev Bag := Multiset NodeValue

/-- `value` overlaps the query, and nothing else in the bag that does starts later. -/
structure Bag.Latest (bag : Bag) (start last : UInt64) (value : NodeValue) : Prop where
  member : value ∈ bag
  overlaps : value.node.overlaps start last = true
  latest : ∀ other ∈ bag, other.node.overlaps start last = true → other.node.start ≤ value.node.start

inductive BagStep : Bag → TreeOp → Bag → Prop
  | full (bag : Bag) (start last : UInt64) (data : Int32) : BagStep bag (.insert none start last data) bag
  | add (bag : Bag) (nv : Addr) (start last : UInt64) (data : Int32) :
      BagStep bag (.insert (some nv) start last data) (⟨⟨start, last⟩, data⟩ ::ₘ bag)
  | take (bag : Bag) (garbage : Option Addr) (start last : UInt64) (value : NodeValue)
      (latest : bag.Latest start last value) : BagStep bag (.remove garbage start last) (bag.erase value)
  | miss (bag : Bag) (start last : UInt64)
      (apart : ∀ value ∈ bag, value.node.overlaps start last = false) :
      BagStep bag (.remove none start last) bag

inductive BagRun : Bag → List TreeOp → Bag → Prop
  | nil (bag : Bag) : BagRun bag [] bag
  | cons {bag next final : Bag} {op : TreeOp} {rest : List TreeOp} (first : BagStep bag op next)
      (later : BagRun next rest final) : BagRun bag (op :: rest) final

def Tree.bag (routines : IntervalRoutines Root) (tree : Tree Root) : Bag :=
  (routines.nodes tree.root : Multiset Addr).map tree.values

structure Holds (routines : IntervalRoutines Root) (others : Finset Addr) (tree : Tree Root) : Prop where
  formed : WellFormed routines tree
  live : tree.live = others ∪ (routines.nodes tree.root).toFinset
  apart : ∀ node ∈ routines.nodes tree.root, node ∉ others

section

variable {routines : IntervalRoutines Root} {others : Finset Addr} {tree next : Tree Root}

theorem mem_bag {value : NodeValue} :
    value ∈ tree.bag routines ↔ ∃ node ∈ routines.nodes tree.root, tree.values node = value := by
  simp [Tree.bag]

theorem WellFormed.inserted (formed : WellFormed routines tree) {nv : Addr} (fresh : nv ∉ tree.live)
    (start last : UInt64) (data : Int32) :
    (routines.nodes (IntervalTree.insert routines (some nv) start last data tree).root).Perm
      (nv :: routines.nodes tree.root) := by
  have outside : nv ∉ routines.nodes tree.root := fun stored => fresh (formed.live nv stored)
  refine (routines.treeInsert_nodes _ nv tree.root (formed.ascending.imp_of_mem ?_) outside).1
  intro first second here there order
  rw [update_of_ne (ne_of_mem_of_not_mem here outside), update_of_ne (ne_of_mem_of_not_mem there outside)]
  exact order

theorem Holds.insert (holds : Holds routines others tree) {nv : Addr} (fresh : nv ∉ tree.live)
    (start last : UInt64) (data : Int32) :
    Holds routines others (IntervalTree.insert routines (some nv) start last data tree) ∧
      (IntervalTree.insert routines (some nv) start last data tree).bag routines =
        ⟨⟨start, last⟩, data⟩ ::ₘ tree.bag routines := by
  have nodes := holds.formed.inserted fresh start last data
  have outside : nv ∉ routines.nodes tree.root := fun stored => fresh (holds.formed.live nv stored)
  refine ⟨⟨?_, ?_, fun node member => ?_⟩, ?_⟩
  · exact holds.formed.insert (fun other same => Option.some.inj same ▸ fresh) start last data
  · rw [List.toFinset_eq_of_perm _ _ nodes, List.toFinset_cons, Finset.union_insert, ← holds.live]
    rfl
  · rcases List.mem_cons.mp (nodes.mem_iff.mp member) with rfl | old
    · rw [holds.live, Finset.mem_union, not_or] at fresh
      exact fresh.1
    · exact holds.apart node old
  · have kept : ∀ node ∈ routines.nodes tree.root,
        update tree.values nv ⟨⟨start, last⟩, data⟩ node = tree.values node :=
      fun node member => update_of_ne (ne_of_mem_of_not_mem member outside) _ _
    rw [Tree.bag, Multiset.coe_eq_coe.mpr nodes, ← Multiset.cons_coe, Multiset.map_cons]
    have here : (IntervalTree.insert routines (some nv) start last data tree).values =
        update tree.values nv ⟨⟨start, last⟩, data⟩ := rfl
    rw [here, update_self, Multiset.map_congr rfl kept]
    rfl

theorem latest_hit (formed : WellFormed routines tree) {start last : UInt64}
    (overlap : tree.hits routines start last ≠ []) :
    (tree.bag routines).Latest start last
      (tree.values ((tree.hits routines start last).getLast overlap)) := by
  obtain ⟨stored, overlaps⟩ := mem_hits.mp (List.getLast_mem overlap)
  refine ⟨mem_bag.mpr ⟨_, stored, rfl⟩, overlaps, fun other member hit => ?_⟩
  obtain ⟨node, inTree, rfl⟩ := mem_bag.mp member
  have among : node ∈ tree.hits routines start last := mem_hits.mpr ⟨inTree, hit⟩
  have sorted : (tree.hits routines start last).Pairwise fun first second =>
      (tree.nodeAt first).start ≤ (tree.nodeAt second).start := formed.ascending.filter _
  rw [← List.dropLast_append_getLast overlap] at among sorted
  rcases List.mem_append.mp among with before | here
  · exact (List.pairwise_append.mp sorted).2.2 node before _ (by simp)
  · rw [List.mem_singleton.mp here]

theorem Holds.unlinkFree (holds : Holds routines others tree) {node : Addr}
    (stored : node ∈ routines.nodes tree.root) {after : Tree Root}
    (nodes : routines.nodes after.root = (routines.nodes tree.root).erase node)
    (live : after.live = tree.live.erase node) (values : after.values = tree.values)
    (formed : WellFormed routines after) :
    Holds routines others after ∧
      after.bag routines = (tree.bag routines).erase (tree.values node) := by
  refine ⟨⟨formed, ?_, fun other member => ?_⟩, ?_⟩
  · rw [live, nodes, holds.live]
    ext other
    rw [Finset.mem_erase, Finset.mem_union, Finset.mem_union, List.mem_toFinset, List.mem_toFinset,
      holds.formed.distinct.mem_erase_iff]
    have apart := holds.apart node stored
    constructor
    · rintro ⟨differs, outside | inside⟩
      · exact .inl outside
      · exact .inr ⟨differs, inside⟩
    · rintro (outside | ⟨differs, inside⟩)
      · exact ⟨fun same => apart (same ▸ outside), .inl outside⟩
      · exact ⟨differs, .inr inside⟩
  · rw [nodes] at member
    exact holds.apart other (List.mem_of_mem_erase member)
  · rw [Tree.bag, Tree.bag, nodes, values, ← Multiset.coe_erase]
    exact Multiset.map_erase_of_mem _ _ stored

theorem Holds.remove (holds : Holds routines others tree) {garbage : Option Addr} {start last : UInt64}
    (defined : garbage = none ∨ tree.hits routines start last ≠ []) :
    ∃ after, step routines tree (.remove garbage start last) = some after ∧
      Holds routines others after ∧
      BagStep (tree.bag routines) (.remove garbage start last) (after.bag routines) := by
  by_cases overlap : tree.hits routines start last = []
  · obtain rfl := defined.resolve_right (not_not.mpr overlap)
    have missed := search_miss holds.formed (Nat.le_refl _) overlap none
    refine ⟨tree, ?_, holds, .miss _ _ _ fun value member => ?_⟩
    · rw [step, IntervalTree.remove, missed]
      rfl
    · obtain ⟨node, stored, rfl⟩ := mem_bag.mp member
      by_contra hit
      have among : node ∈ tree.hits routines start last :=
        mem_hits.mpr ⟨stored, by simpa [Tree.nodeAt] using hit⟩
      simp [overlap] at among
  · have found := search_eq holds.formed (Nat.le_refl _) garbage start last
    rw [List.getLast?_eq_some_getLast overlap] at found
    have stored := (mem_hits.mp (List.getLast_mem overlap)).1
    obtain ⟨after, removed, formed, live, nodes, values⟩ := remove_hit holds.formed stored found
    obtain ⟨kept, bag⟩ := holds.unlinkFree stored nodes live values formed
    refine ⟨after, ?_, kept, ?_⟩
    · rw [step, removed]
      rfl
    · rw [bag]
      exact .take _ _ _ _ _ (latest_hit holds.formed overlap)

theorem Holds.step (holds : Holds routines others tree) {op : TreeOp} (defined : Defined routines tree op)
    (fresh : Fresh tree op) : ∃ after, step routines tree op = some after ∧
      Holds routines others after ∧ BagStep (tree.bag routines) op (after.bag routines) := by
  cases op with
  | insert kmalloc start last data =>
      refine ⟨_, if_pos fresh, ?_⟩
      cases kmalloc with
      | none => exact ⟨holds, .full _ _ _ _⟩
      | some nv =>
          obtain ⟨kept, bag⟩ := holds.insert (fresh nv rfl) start last data
          rw [bag]
          exact ⟨kept, .add _ nv _ _ _⟩
  | remove garbage start last => exact holds.remove defined

theorem fresh_of_step {op : TreeOp} (stepped : step routines tree op = some next) : Fresh tree op := by
  cases op with
  | insert kmalloc start last data =>
      rw [IntervalTree.step] at stepped
      split at stepped
      · rename_i fresh
        exact fresh
      · simp at stepped
  | remove garbage start last => trivial

theorem Holds.run (holds : Holds routines others tree) {ops : List TreeOp} {final : Tree Root}
    (defined : EachStep (IntervalTree.step routines) (Defined routines) tree ops)
    (ran : run (IntervalTree.step routines) tree ops = some final) :
    Holds routines others final ∧ BagRun (tree.bag routines) ops (final.bag routines) := by
  induction ops generalizing tree with
  | nil =>
      obtain rfl := Option.some.inj ran
      exact ⟨holds, .nil _⟩
  | cons op rest ih =>
      obtain ⟨next, stepped, remaining⟩ := run_cons_some ran
      obtain ⟨here, later⟩ := defined next stepped
      obtain ⟨after, same, kept, first⟩ := holds.step here (fresh_of_step stepped)
      obtain rfl := Option.some.inj (stepped.symm.trans same)
      obtain ⟨finalHolds, bagRun⟩ := ih kept later remaining
      exact ⟨finalHolds, .cons first bagRun⟩

end

/-- Runs from the empty tree in which no removal hands out the garbage of `search`: the tree is the
bag of the intervals, every further such operation goes through, and the nodes are exactly the
blocks that the module has out, until `remove_all` has returned them. -/
theorem intervalTree_refines_bag (routines : IntervalRoutines Root) (values : Addr → NodeValue)
    (others : Finset Addr) (ops : List TreeOp) (final : Tree Root)
    (defined : EachStep (step routines) (Defined routines) ⟨routines.rbRootCached, values, others⟩ ops)
    (ran : run (step routines) ⟨routines.rbRootCached, values, others⟩ ops = some final) :
    BagRun 0 ops (final.bag routines) ∧
      final.live = others ∪ (routines.nodes final.root).toFinset ∧
      (∀ op, Defined routines final op → Fresh final op → ∃ next, step routines final op = some next) ∧
      ∀ fuel, (routines.nodes final.root).length < fuel →
        ∃ after, removeAll routines fuel final = some (.ok after) ∧
          routines.nodes after.root = [] ∧ after.live = others := by
  have empty : Holds routines others ⟨routines.rbRootCached, values, others⟩ := by
    refine ⟨WellFormed.empty values others, ?_, ?_⟩
    · simp [routines.rbRootCached_nodes]
    · simp [routines.rbRootCached_nodes]
  have nothing : Tree.bag routines ⟨routines.rbRootCached, values, others⟩ = 0 := by
    simp [Tree.bag, routines.rbRootCached_nodes]
  obtain ⟨holds, bagRun⟩ := empty.run defined ran
  rw [nothing] at bagRun
  refine ⟨bagRun, holds.live, fun op here fresh => ?_, fun fuel enough => ?_⟩
  · obtain ⟨next, stepped, -⟩ := holds.step here fresh
    exact ⟨next, stepped⟩
  · obtain ⟨after, emptied, gone, live⟩ := removeAll_empties holds.formed enough
    refine ⟨after, emptied, gone, ?_⟩
    rw [live, holds.live, Finset.union_sdiff_cancel_right]
    exact Finset.disjoint_right.mpr fun node member => holds.apart node (List.mem_toFinset.mp member)

def testOps : List TreeOp :=
  [.insert (some 8) 0 10 1, .insert (some 16) 10 20 2, .insert (some 24) 20 30 3,
    .remove (some 4096) 9 15]

theorem intervalTree_refines_bag_testOps : ∃ final,
    run (step listRoutines) ⟨[], fun _ => ⟨⟨0, 0⟩, 0⟩, {4096}⟩ testOps = some final ∧
    BagRun 0 testOps (final.bag listRoutines) ∧
    final.live = {4096} ∪ (listRoutines.nodes final.root).toFinset ∧
    ∀ fuel, (listRoutines.nodes final.root).length < fuel →
      ∃ after, removeAll listRoutines fuel final = some (.ok after) ∧
        listRoutines.nodes after.root = [] ∧ after.live = {4096} := by
  obtain ⟨final, ran⟩ := Option.isSome_iff_exists.mp (by decide :
    (run (step listRoutines) ⟨[], fun _ => ⟨⟨0, 0⟩, 0⟩, {4096}⟩ testOps).isSome = true)
  have defined : EachStep (step listRoutines) (Defined listRoutines)
      ⟨[], fun _ => ⟨⟨0, 0⟩, 0⟩, {4096}⟩ testOps := by
    intro first one
    refine ⟨trivial, fun second two => ⟨trivial, fun third three => ⟨trivial, fun fourth four => ?_⟩⟩⟩
    obtain rfl := Option.some.inj one
    obtain rfl := Option.some.inj two
    obtain rfl := Option.some.inj three
    exact ⟨.inr (by decide), trivial⟩
  obtain ⟨bag, live, -, emptied⟩ :=
    intervalTree_refines_bag listRoutines (fun _ => ⟨⟨0, 0⟩, 0⟩) {4096} testOps final defined ran
  exact ⟨final, ran, bag, live, emptied⟩

end LearnK.IntervalTree
