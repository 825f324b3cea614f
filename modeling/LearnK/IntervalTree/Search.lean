import Mathlib.Data.List.Sort
import LearnK.IntervalTree.Core

/-! What `search` and `remove` do to a tree of live nodes, whatever the variable that `search` never
initialises starts with. -/

namespace LearnK.IntervalTree

open CInt Function

variable {Root : Type} {routines : IntervalRoutines Root} {tree : Tree Root}

structure WellFormed (routines : IntervalRoutines Root) (tree : Tree Root) : Prop where
  ascending : Ascending tree.nodeAt (routines.nodes tree.root)
  distinct : (routines.nodes tree.root).Nodup
  live : ∀ node ∈ routines.nodes tree.root, node ∈ tree.live

theorem WellFormed.empty (values : Addr → NodeValue) (live : Finset Addr) :
    WellFormed routines ⟨routines.rbRootCached, values, live⟩ := by
  refine ⟨?_, ?_, ?_⟩ <;> rw [routines.rbRootCached_nodes]
  · exact List.Pairwise.nil
  · exact List.nodup_nil
  · exact List.forall_mem_nil _

def Tree.hits (routines : IntervalRoutines Root) (tree : Tree Root) (start last : UInt64) :
    List Addr :=
  IntervalTree.hits tree.nodeAt (routines.nodes tree.root) start last

theorem mem_hits {start last : UInt64} {node : Addr} :
    node ∈ tree.hits routines start last ↔
      node ∈ routines.nodes tree.root ∧ (tree.nodeAt node).overlaps start last = true :=
  List.mem_filter

theorem hits_length_le (start last : UInt64) :
    (tree.hits routines start last).length ≤ (routines.nodes tree.root).length :=
  List.length_filter_le _ _

theorem searchLoop_eq (formed : WellFormed routines tree) {start last : UInt64}
    {before rest : List Addr} (shape : tree.hits routines start last = before ++ rest) {fuel : Nat}
    (enough : rest.length ≤ fuel) (nv : Option Addr) :
    searchLoop routines tree start last fuel rest.head? nv = some (rest.getLast?.or nv) := by
  induction rest generalizing before fuel nv with
  | nil => cases fuel <;> rfl
  | cons node rest ih =>
      obtain ⟨more, rfl⟩ : ∃ more, fuel = more + 1 := ⟨fuel - 1, by simp at enough; omega⟩
      have next : routines.iterNext tree.nodeAt tree.root node start last = rest.head? :=
        routines.iterNext_eq _ _ _ _ _ _ _ formed.ascending formed.distinct shape
      have shifted : tree.hits routines start last = (before ++ [node]) ++ rest := by simp [shape]
      rw [List.head?_cons, searchLoop, next, ih shifted (by simpa using enough), List.getLast?_cons]
      cases rest.getLast? <;> rfl

theorem search_eq (formed : WellFormed routines tree) {fuel : Nat}
    (enough : (routines.nodes tree.root).length ≤ fuel) (nv : Option Addr) (start last : UInt64) :
    search routines fuel nv tree start last =
      some ((tree.hits routines start last).getLast?.or nv) := by
  have all : tree.hits routines start last = [] ++ tree.hits routines start last := rfl
  have few := @hits_length_le _ routines tree start last
  rw [search, routines.iterFirst_eq _ _ _ _ formed.ascending formed.distinct]
  exact searchLoop_eq formed all (by omega) nv

theorem search_hit (formed : WellFormed routines tree) {fuel : Nat}
    (enough : (routines.nodes tree.root).length ≤ fuel) {start last : UInt64}
    (overlap : tree.hits routines start last ≠ []) (nv : Option Addr) :
    ∃ node ∈ tree.hits routines start last,
      search routines fuel nv tree start last = some (some node) := by
  refine ⟨_, List.getLast_mem overlap, ?_⟩
  rw [search_eq formed enough, List.getLast?_eq_some_getLast overlap]
  rfl

theorem search_miss (formed : WellFormed routines tree) {fuel : Nat}
    (enough : (routines.nodes tree.root).length ≤ fuel) {start last : UInt64}
    (apart : tree.hits routines start last = []) (nv : Option Addr) :
    search routines fuel nv tree start last = some nv := by
  rw [search_eq formed enough, apart]
  rfl

theorem unlinkFree_stored {node : Addr} (stored : node ∈ routines.nodes tree.root) :
    unlinkFree routines node tree =
      .ok { tree with root := routines.treeRemove node tree.root, live := tree.live.erase node } :=
  if_pos stored

theorem WellFormed.unlinkFree (formed : WellFormed routines tree) {node : Addr}
    (stored : node ∈ routines.nodes tree.root) :
    WellFormed routines
      { tree with root := routines.treeRemove node tree.root, live := tree.live.erase node } := by
  have erased := routines.treeRemove_nodes node tree.root formed.distinct stored
  refine ⟨?_, ?_, ?_⟩
  · show Ascending tree.nodeAt (routines.nodes (routines.treeRemove node tree.root))
    rw [erased]
    exact formed.ascending.sublist List.erase_sublist
  · show (routines.nodes (routines.treeRemove node tree.root)).Nodup
    rw [erased]
    exact formed.distinct.erase node
  · show ∀ other ∈ routines.nodes (routines.treeRemove node tree.root), other ∈ tree.live.erase node
    rw [erased]
    intro other member
    obtain ⟨differs, old⟩ := (formed.distinct.mem_erase_iff).mp member
    exact Finset.mem_erase.mpr ⟨differs, formed.live other old⟩

theorem WellFormed.insert (formed : WellFormed routines tree) {kmalloc : Option Addr}
    (fresh : ∀ nv ∈ kmalloc, nv ∉ tree.live) (start last : UInt64) (data : Int32) :
    WellFormed routines (insert routines kmalloc start last data tree) := by
  cases kmalloc with
  | none => exact formed
  | some nv =>
      have outside : nv ∉ routines.nodes tree.root :=
        fun stored => fresh nv rfl (formed.live nv stored)
      have kept : ∀ node ∈ routines.nodes tree.root,
          (update tree.values nv ⟨⟨start, last⟩, data⟩ node).node = tree.nodeAt node := by
        intro node stored
        have differs : node ≠ nv := by
          rintro rfl
          exact outside stored
        rw [update_of_ne differs]
        rfl
      have ascending : Ascending (fun node => (update tree.values nv ⟨⟨start, last⟩, data⟩ node).node)
          (routines.nodes tree.root) := by
        refine List.Pairwise.imp_of_mem ?_ formed.ascending
        intro first second here there order
        dsimp only
        rwa [kept first here, kept second there]
      obtain ⟨perm, sorted⟩ := routines.treeInsert_nodes _ nv tree.root ascending outside
      refine ⟨sorted, ?_, ?_⟩
      · exact perm.nodup_iff.mpr (List.nodup_cons.mpr ⟨outside, formed.distinct⟩)
      · intro node member
        rcases List.mem_cons.mp (perm.mem_iff.mp member) with rfl | old
        · exact Finset.mem_insert_self _ _
        · exact Finset.mem_insert_of_mem (formed.live node old)

structure Exact (routines : IntervalRoutines Root) (fuel : Nat) (tree : Tree Root)
    (start last : UInt64) : Prop where
  search : ∀ garbage, ∃ nv, search routines fuel garbage tree start last = some nv ∧
    (nv = none ↔ tree.hits routines start last = []) ∧
    ∀ node, nv = some node → node ∈ tree.hits routines start last
  remove : ∀ garbage, ∃ after, remove routines fuel garbage start last tree = some (.ok after) ∧
    (tree.hits routines start last = [] → after = tree) ∧
    (tree.hits routines start last ≠ [] → ∃ node ∈ tree.hits routines start last,
      IntervalTree.search routines fuel garbage tree start last = some (some node) ∧
      node ∈ tree.live ∧ after.live = tree.live.erase node ∧
      routines.nodes after.root = (routines.nodes tree.root).erase node ∧
      after.values = tree.values)

theorem remove_hit (formed : WellFormed routines tree) {fuel : Nat} {start last : UInt64}
    {garbage : Option Addr} {node : Addr} (stored : node ∈ routines.nodes tree.root)
    (found : search routines fuel garbage tree start last = some (some node)) :
    ∃ after, remove routines fuel garbage start last tree = some (.ok after) ∧
      WellFormed routines after ∧ after.live = tree.live.erase node ∧
      routines.nodes after.root = (routines.nodes tree.root).erase node ∧
      after.values = tree.values := by
  refine ⟨_, ?_, formed.unlinkFree stored, rfl,
    routines.treeRemove_nodes node tree.root formed.distinct stored, rfl⟩
  rw [remove, found, Option.map_some]
  exact congrArg some (unlinkFree_stored stored)

/-- The two functions do what they are for exactly when some stored interval overlaps the query. -/
theorem search_remove_exact_iff (formed : WellFormed routines tree) {fuel : Nat}
    (enough : (routines.nodes tree.root).length ≤ fuel) (start last : UInt64) :
    Exact routines fuel tree start last ↔
      ∃ node ∈ routines.nodes tree.root, (tree.nodeAt node).overlaps start last = true := by
  constructor
  · intro exact
    by_contra apart
    have none : tree.hits routines start last = [] := by
      refine List.eq_nil_iff_forall_not_mem.mpr fun node hit => ?_
      exact apart ⟨node, mem_hits.mp hit⟩
    -- a stale pointer in the variable is handed out as a result
    obtain ⟨nv, found, nullIff, -⟩ := exact.search (some 4096)
    rw [search_miss formed enough none, Option.some.injEq] at found
    rw [← found] at nullIff
    exact absurd (nullIff.mpr none) (by simp)
  · rintro ⟨node, stored, overlap⟩
    have occupied : tree.hits routines start last ≠ [] :=
      List.ne_nil_of_mem (mem_hits.mpr ⟨stored, overlap⟩)
    refine ⟨fun garbage => ?_, fun garbage => ?_⟩
    · obtain ⟨hit, member, found⟩ := search_hit formed enough occupied garbage
      refine ⟨some hit, found, by simp [occupied], fun other same => ?_⟩
      rwa [← Option.some.inj same]
    · obtain ⟨hit, member, found⟩ := search_hit formed enough occupied garbage
      have inTree := (mem_hits.mp member).1
      obtain ⟨after, removed, -, freed, others, values⟩ := remove_hit formed inTree found
      exact ⟨after, removed, fun apart => absurd apart occupied,
        fun _ => ⟨hit, member, found, formed.live hit inTree, freed, others, values⟩⟩

theorem overlaps_everything (node : IntervalTreeNode) :
    node.overlaps 0 18446744073709551615 = true := by
  have top : node.start ≤ 18446744073709551615 := by
    rw [UInt64.le_iff_toNat_le]
    exact Nat.le_of_lt_succ node.start.toNat_lt
  have bottom : 0 ≤ node.last := by
    rw [UInt64.le_iff_toNat_le]
    exact Nat.zero_le _
  simp [IntervalTreeNode.overlaps, top, bottom]

theorem iterFirst_everything (formed : WellFormed routines tree) :
    routines.iterFirst tree.nodeAt tree.root 0 18446744073709551615 =
      (routines.nodes tree.root).head? := by
  rw [routines.iterFirst_eq _ _ _ _ formed.ascending formed.distinct, hits,
    List.filter_eq_self.mpr fun node _ => overlaps_everything _]

theorem removeAll_empties (formed : WellFormed routines tree) {fuel : Nat}
    (enough : (routines.nodes tree.root).length < fuel) :
    ∃ after, removeAll routines fuel tree = some (.ok after) ∧ routines.nodes after.root = [] ∧
      after.live = tree.live \ (routines.nodes tree.root).toFinset := by
  induction fuel generalizing tree with
  | zero => omega
  | succ fuel ih =>
      rw [removeAll, iterFirst_everything formed]
      cases shape : routines.nodes tree.root with
      | nil => exact ⟨tree, rfl, shape, by simp⟩
      | cons node rest =>
          have stored : node ∈ routines.nodes tree.root := by simp [shape]
          have left : routines.nodes (routines.treeRemove node tree.root) = rest := by
            rw [routines.treeRemove_nodes node tree.root formed.distinct stored, shape,
              List.erase_cons_head]
          have fewer : (routines.nodes (routines.treeRemove node tree.root)).length < fuel := by
            rw [shape, List.length_cons] at enough
            rw [left]
            omega
          obtain ⟨after, emptied, none, freed⟩ := ih (formed.unlinkFree stored) fewer
          refine ⟨after, ?_, none, ?_⟩
          · simp only [List.head?_cons, unlinkFree_stored stored]
            exact emptied
          · rw [freed, left, List.toFinset_cons, Finset.sdiff_insert, Finset.erase_sdiff_comm]

def listRoutines : IntervalRoutines (List Addr) where
  rbRootCached := []
  nodes root := root
  treeInsert nodeAt node root :=
    root.orderedInsert (fun first second => (nodeAt first).start ≤ (nodeAt second).start) node
  treeRemove node root := root.erase node
  iterFirst nodeAt root start last := (hits nodeAt root start last).head?
  iterNext nodeAt root node start last :=
    ((hits nodeAt root start last).dropWhile (· ≠ node)).tail.head?
  rbRootCached_nodes := rfl
  treeInsert_nodes nodeAt node root ascending _ := by
    have total : Std.Total fun first second : Addr =>
        (nodeAt first).start ≤ (nodeAt second).start := ⟨fun _ _ => UInt64.le_total _ _⟩
    have trans : IsTrans Addr fun first second =>
        (nodeAt first).start ≤ (nodeAt second).start := ⟨fun _ _ _ => UInt64.le_trans⟩
    exact ⟨List.perm_orderedInsert _ _ _, List.Pairwise.orderedInsert _ _ ascending⟩
  treeRemove_nodes _ _ _ _ := rfl
  iterFirst_eq _ _ _ _ _ _ := rfl
  iterNext_eq nodeAt root start last before node after _ distinct shape := by
    have nodup : (before ++ node :: after).Nodup := by
      rw [← shape]
      exact distinct.filter _
    rw [List.nodup_middle, List.nodup_cons, List.mem_append, not_or] at nodup
    have skipped : ∀ other ∈ before, decide (other ≠ node) = true := by
      intro other member
      rw [decide_eq_true_iff]
      rintro rfl
      exact nodup.1.1 member
    rw [shape, List.dropWhile_append_of_pos skipped]
    simp

def threeIntervals : Tree (List Addr) :=
  insert listRoutines (some 24) 20 30 3 <| insert listRoutines (some 16) 10 20 2 <|
    insert listRoutines (some 8) 0 10 1 ⟨[], fun _ => ⟨⟨0, 0⟩, 0⟩, ∅⟩

theorem threeIntervals_wellFormed : WellFormed listRoutines threeIntervals := by
  have empty : WellFormed listRoutines ⟨[], fun _ => ⟨⟨0, 0⟩, 0⟩, ∅⟩ := .empty _ _
  refine ((empty.insert ?_ 0 10 1).insert ?_ 10 20 2).insert ?_ 20 30 3 <;> decide

theorem search_remove_exact_iff_threeIntervals :
    Exact listRoutines 3 threeIntervals 9 15 :=
  (search_remove_exact_iff threeIntervals_wellFormed (by decide) 9 15).mpr ⟨8, by decide, by decide⟩

theorem search_returns_garbage :
    WellFormed listRoutines threeIntervals ∧
      (∀ node ∈ listRoutines.nodes threeIntervals.root,
        (threeIntervals.nodeAt node).overlaps 65 75 = false) ∧
      search listRoutines 3 (some 4096) threeIntervals 65 75 = some (some 4096) ∧
      (remove listRoutines 3 (some 4096) 65 75 threeIntervals).map
        (fun result => result.toOption.isSome) = some false ∧
      ¬Exact listRoutines 3 threeIntervals 65 75 := by
  have stale : search listRoutines 3 (some 4096) threeIntervals 65 75 = some (some 4096) := by decide
  refine ⟨threeIntervals_wellFormed, by decide, stale, by decide, ?_⟩
  intro exact
  obtain ⟨nv, found, nullIff, -⟩ := exact.search (some 4096)
  rw [stale, Option.some.injEq] at found
  rw [← found] at nullIff
  exact absurd (nullIff.mpr (by decide)) (by simp)

end LearnK.IntervalTree
