import LearnK.Hook.Effect
import LearnK.RbTree.Map

/-! `insert_params` and `pop_params` on a pool: what each does to the entries in order, and when an
insertion can be taken back. -/

namespace LearnK.Hook

open SearchTree StepMachine Function
open LearnK.RbTree (Addr RbRoutines addrs eexist)

def insertNode (routines : RbRoutines) (kmalloc : Option Addr) (key : UInt64) (params : Addr)
    (pool : ProbePool) : Option (Int × ProbePool) :=
  linkNode routines kmalloc key params (findNew key pool) pool

def popNode (routines : RbRoutines) (key : UInt64) (pool : ProbePool) : Option Addr × ProbePool :=
  eraseNode routines (searchNode key pool) pool

def insertParams (routines : RbRoutines) (kmalloc : Option Addr) (key : UInt64) (params : Addr)
    (map : ProbePool) : Option (Int × ProbePool) :=
  (insertNode routines kmalloc key params map).map fun (_, map) => (0, map)

def popParams (routines : RbRoutines) (key : UInt64) (map : ProbePool) : Option Addr × ProbePool :=
  popNode routines key map

def ProbePool.contents (pool : ProbePool) : List (Addr × MyEntry) :=
  (addrs pool.root).map fun entry => (entry, pool.entries entry)

inductive PoolOp
  | insert (key : UInt64) (params : Addr) (kmalloc : Option Addr)
  | pop (key : UInt64)

def ProbePool.Fresh (pool : ProbePool) (kmalloc : Option Addr) : Prop :=
  ∀ entry ∈ kmalloc, entry ∉ addrs pool.root

instance (pool : ProbePool) : ∀ kmalloc, Decidable (pool.Fresh kmalloc)
  | none => isTrue (by simp [ProbePool.Fresh])
  | some entry => decidable_of_iff (entry ∉ addrs pool.root) (by simp [ProbePool.Fresh])

def poolStep (routines : RbRoutines) (pool : ProbePool) : PoolOp → Option ProbePool
  | .insert key params kmalloc =>
      if pool.Fresh kmalloc then (insertParams routines kmalloc key params pool).map Prod.snd
      else none
  | .pop key => some (popParams routines key pool).2

variable {routines : RbRoutines} {pool : ProbePool}

theorem link_entry {key : UInt64} {slot : List Turn} {entry : Addr}
    (ordered : Ordered pool.keyAt (addrs pool.root)) (found : findNew key pool = some slot)
    (outside : entry ∉ addrs pool.root) (params : Addr) :
    ∃ before after, addrs pool.root = before ++ after ∧
      addrs (routines.rbInsertColor entry (linkAt ⟨entry, .red⟩ slot pool.root)) =
        before ++ entry :: after ∧
      (∀ other ∈ addrs pool.root,
        update pool.entries entry ⟨key, params⟩ other = pool.entries other) ∧
      Ordered (fun other => (update pool.entries entry ⟨key, params⟩ other).key)
        (before ++ entry :: after) := by
  obtain ⟨before, after, shape, inserted, less, more⟩ :=
    RbTree.insert_addrs routines ordered found outside
  have kept (other : Addr) (member : other ∈ addrs pool.root) :
      update pool.entries entry ⟨key, params⟩ other = pool.entries other := by
    refine update_of_ne ?_ _ _
    rintro rfl
    exact outside member
  refine ⟨before, after, shape, inserted, kept, Ordered.insert ?_ ?_ ?_⟩
  · rw [← shape]
    refine ordered.imp_of_mem ?_
    intro first second firstMember secondMember lower
    simp only [kept first firstMember, kept second secondMember]
    exact lower
  · intro other member
    simp only [kept other (shape ▸ List.mem_append_left _ member), update_self]
    exact less other member
  · intro other member
    simp only [kept other (shape ▸ List.mem_append_right _ member), update_self]
    exact more other member

theorem searchNode_of_mem {entry : Addr} (ordered : Ordered pool.keyAt (addrs pool.root))
    (member : entry ∈ addrs pool.root) : searchNode (pool.keyAt entry) pool = some entry := by
  cases met : searchNode (pool.keyAt entry) pool with
  | none => exact absurd rfl (RbTree.find_addr_none ordered met entry member)
  | some other =>
      obtain ⟨inside, same⟩ := searchNode_some met
      rw [ordered.injective inside member same]

theorem searchNode_none_iff {key : UInt64} (ordered : Ordered pool.keyAt (addrs pool.root)) :
    searchNode key pool = none ↔ ∀ entry ∈ addrs pool.root, pool.keyAt entry ≠ key := by
  constructor
  · exact RbTree.find_addr_none ordered
  · intro absent
    cases met : searchNode key pool with
    | none => rfl
    | some entry =>
        obtain ⟨member, same⟩ := searchNode_some met
        exact absurd same (absent entry member)

theorem popParams_some {key : UInt64} {entry : Addr} (found : searchNode key pool = some entry) :
    popParams routines key pool =
      (some (pool.entries entry).params, { pool with root := routines.rbErase entry pool.root }) := by
  rw [popParams, popNode, found, eraseNode]

theorem popParams_none {key : UInt64} (missing : searchNode key pool = none) :
    popParams routines key pool = (none, pool) := by
  rw [popParams, popNode, missing, eraseNode]

theorem insertParams_present {key : UInt64} {params : Addr} {kmalloc : Option Addr}
    (present : findNew key pool = none) :
    insertParams routines kmalloc key params pool = some (0, pool) := by
  rw [insertParams, insertNode, present, linkNode]
  rfl

theorem insertParams_new {key : UInt64} {params entry : Addr} {slot : List Turn}
    (found : findNew key pool = some slot) :
    insertParams routines (some entry) key params pool = some (0,
      { root := routines.rbInsertColor entry (linkAt ⟨entry, .red⟩ slot pool.root)
        entries := update pool.entries entry ⟨key, params⟩ }) := by
  rw [insertParams, insertNode, found, linkNode]
  rfl

theorem insertParams_null {key : UInt64} {params : Addr} {slot : List Turn}
    (found : findNew key pool = some slot) :
    insertParams routines none key params pool = none := by
  rw [insertParams, insertNode, found, linkNode]
  rfl

theorem ordered_insertParams {key : UInt64} {params : Addr} {kmalloc : Option Addr} {ret : Int}
    {after : ProbePool} (ordered : Ordered pool.keyAt (addrs pool.root)) (fresh : pool.Fresh kmalloc)
    (ran : insertParams routines kmalloc key params pool = some (ret, after)) :
    Ordered after.keyAt (addrs after.root) := by
  cases found : findNew key pool with
  | none =>
      rw [insertParams_present found] at ran
      cases ran
      exact ordered
  | some slot =>
      cases kmalloc with
      | none =>
          rw [insertParams_null found] at ran
          cases ran
      | some entry =>
          rw [insertParams_new found] at ran
          cases ran
          obtain ⟨_, _, -, inserted, -, linked⟩ := link_entry ordered found (fresh entry rfl) params
          rw [← inserted] at linked
          exact linked

theorem ordered_popParams (routines : RbRoutines) (key : UInt64)
    (ordered : Ordered pool.keyAt (addrs pool.root)) :
    Ordered (popParams routines key pool).2.keyAt (addrs (popParams routines key pool).2.root) := by
  cases found : searchNode key pool with
  | none =>
      rw [popParams_none found]
      exact ordered
  | some entry =>
      rw [popParams_some found]
      simp only [routines.rbErase_addrs entry pool.root ordered.nodup (searchNode_some found).1]
      exact ordered.sublist List.erase_sublist

theorem ordered_reachable {entries : Addr → MyEntry} {ops : List PoolOp}
    (ran : run (poolStep routines) ⟨.nil, entries⟩ ops = some pool) :
    Ordered pool.keyAt (addrs pool.root) := by
  have kept (pool : ProbePool) (op : PoolOp) (next : ProbePool)
      (ordered : Ordered pool.keyAt (addrs pool.root))
      (stepped : poolStep routines pool op = some next) : Ordered next.keyAt (addrs next.root) := by
    cases op with
    | insert key params kmalloc =>
        simp only [poolStep] at stepped
        split at stepped
        · rename_i fresh
          obtain ⟨⟨ret, after⟩, inserted, rfl⟩ := Option.map_eq_some_iff.mp stepped
          exact ordered_insertParams ordered fresh inserted
        · simp at stepped
    | pop key =>
        obtain rfl := Option.some.inj stepped
        exact ordered_popParams routines key ordered
  exact run_invariant kept (by simp [addrs, Ordered]) ran

/-- An insertion that reports success can be taken back at once, and one of a key that is already
there reports an error and changes nothing. -/
structure PopsBack (routines : RbRoutines) (kmalloc : Option Addr) (key : UInt64) (params : Addr)
    (pool : ProbePool) : Prop where
  inserted : ∀ after, insertParams routines kmalloc key params pool = some (0, after) →
    (popParams routines key after).1 = some params ∧
      (popParams routines key after).2.contents = pool.contents
  refused : (∃ entry ∈ addrs pool.root, pool.keyAt entry = key) →
    ∃ error, error ≠ 0 ∧ insertParams routines kmalloc key params pool = some (error, pool)

theorem popParams_after_insert {key : UInt64} {params entry : Addr} {slot : List Turn}
    {after : ProbePool} (ordered : Ordered pool.keyAt (addrs pool.root))
    (outside : entry ∉ addrs pool.root) (found : findNew key pool = some slot)
    (ran : insertParams routines (some entry) key params pool = some (0, after)) :
    (popParams routines key after).1 = some params ∧
      (popParams routines key after).2.contents = pool.contents := by
  have sorted := @ordered_insertParams routines pool key params (some entry) 0 after ordered
    (by rintro _ ⟨⟩; exact outside) ran
  obtain ⟨before, rest, shape, inserted, kept, -⟩ := link_entry ordered found outside params
  rw [insertParams_new found] at ran
  cases ran
  have linked : addrs (routines.rbInsertColor entry (linkAt ⟨entry, .red⟩ slot pool.root)) =
      before ++ entry :: rest := inserted
  have met := @searchNode_of_mem _ entry sorted (by simp [linked])
  simp only [ProbePool.keyAt, update_self] at met
  have nodup : (before ++ entry :: rest).Nodup := by
    rw [← linked]
    exact sorted.nodup
  have erased : (before ++ entry :: rest).erase entry = addrs pool.root := by
    rw [List.erase_append_right _ fun member => outside (shape ▸ List.mem_append_left _ member),
      List.erase_cons_head, shape]
  rw [popParams_some met]
  refine ⟨by simp, ?_⟩
  simp only [ProbePool.contents, routines.rbErase_addrs entry _ (linked ▸ nodup) (by simp [linked]),
    linked, erased]
  exact List.map_congr_left fun other member => by rw [kept other member]

/-- In every pool that insertions and removals can leave, an insertion can be taken back exactly when
its key was not there. -/
theorem insertParams_pops_back_iff (routines : RbRoutines) (entries : Addr → MyEntry)
    (ops : List PoolOp) (pool : ProbePool)
    (ran : run (poolStep routines) ⟨.nil, entries⟩ ops = some pool) (key : UInt64) (params : Addr)
    (kmalloc : Option Addr) (fresh : pool.Fresh kmalloc) :
    PopsBack routines kmalloc key params pool ↔
      ∀ entry ∈ addrs pool.root, pool.keyAt entry ≠ key := by
  have ordered := ordered_reachable ran
  constructor
  · intro popsBack entry member same
    obtain ⟨error, nonzero, reported⟩ := popsBack.refused ⟨entry, member, same⟩
    have present : findNew key pool = none := by
      rw [findNew_eq_none_iff, ← same, searchNode_of_mem ordered member]
      rfl
    -- the error is dropped between the two functions
    rw [insertParams_present present] at reported
    cases reported
    exact nonzero rfl
  · intro absent
    refine ⟨fun after inserted => ?_, fun ⟨entry, member, same⟩ => absurd same (absent entry member)⟩
    have missing := (searchNode_none_iff ordered).mpr absent
    cases found : findNew key pool with
    | none =>
        rw [findNew_eq_none_iff, missing] at found
        simp at found
    | some slot =>
        cases kmalloc with
        | none =>
            rw [insertParams_null found] at inserted
            cases inserted
        | some entry => exact popParams_after_insert ordered (fresh entry rfl) found inserted

def twoInserted : List PoolOp := [.insert 4096 16 (some 32), .insert 8192 48 (some 64)]

theorem insertParams_pops_back_iff_twoInserted :
    ∃ pool, run (poolStep RbTree.plainRoutines) ⟨.nil, fun _ => ⟨0, 0⟩⟩ twoInserted = some pool ∧
      (PopsBack RbTree.plainRoutines (some 96) 12288 80 pool ↔
        ∀ entry ∈ addrs pool.root, pool.keyAt entry ≠ 12288) := by
  have observed : (run (poolStep RbTree.plainRoutines) ⟨.nil, fun _ => ⟨0, 0⟩⟩ twoInserted).map
      (fun pool => decide (pool.Fresh (some 96))) = some true := by decide +kernel
  obtain ⟨pool, ran, free⟩ := Option.map_eq_some_iff.mp observed
  exact ⟨pool, ran, insertParams_pops_back_iff RbTree.plainRoutines _ _ pool ran 12288 80 (some 96)
    (of_decide_eq_true free)⟩

theorem insertParams_twice_returns_first :
    ∃ pool, run (poolStep RbTree.plainRoutines) ⟨.nil, fun _ => ⟨0, 0⟩⟩
        [.insert 4096 16 (some 32)] = some pool ∧
      insertParams RbTree.plainRoutines (some 64) 4096 48 pool = some (0, pool) ∧
      (popParams RbTree.plainRoutines 4096 pool).1 = some 16 ∧
      (popParams RbTree.plainRoutines 4096 pool).2.contents = [] ∧
      pool.contents = [(32, ⟨4096, 16⟩)] ∧
      ¬PopsBack RbTree.plainRoutines (some 64) 4096 48 pool := by
  have observed : (run (poolStep RbTree.plainRoutines) ⟨.nil, fun _ => ⟨0, 0⟩⟩
      [.insert 4096 16 (some 32)]).map (fun pool => decide (findNew 4096 pool = none ∧
        (popParams RbTree.plainRoutines 4096 pool).1 = some 16 ∧
        (popParams RbTree.plainRoutines 4096 pool).2.contents = [] ∧
        pool.contents = [(32, ⟨4096, 16⟩)])) = some true := by decide +kernel
  obtain ⟨pool, ran, facts⟩ := Option.map_eq_some_iff.mp observed
  obtain ⟨present, popped, emptied, held⟩ := of_decide_eq_true facts
  refine ⟨pool, ran, insertParams_present present, popped, emptied, held, fun popsBack => ?_⟩
  have restored := (popsBack.inserted pool (insertParams_present present)).2
  rw [emptied, held] at restored
  simp at restored

end LearnK.Hook
