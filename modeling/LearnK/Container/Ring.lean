import LearnK.Container.Core
import LearnK.Lib.LinkedRing

/-! What each list operation does to a ring of live structs, as an exact equation for the
heap it leaves and the list of nodes that heap holds. -/

namespace LearnK.Container

open FaultM LinkedRing ListMemory Function

theorem access_ok {α : Type} {addr : Addr} {result : Heap → α × Heap} {heap : Heap}
    {outcome : α × Heap} (ran : CellM.access addr result heap = .ok outcome) :
    heap.live addr = true ∧ result heap = outcome := by
  rw [CellM.access] at ran
  split at ran
  · rename_i live
    exact ⟨live, Except.ok.inj ran⟩
  · simp at ran

section Primitives

variable {heap : Heap} {addr : Addr}

theorem readNext_run (live : heap.live addr = true) :
    (readNext addr : CellM Addr) heap = .ok (heap.next addr, heap) := by
  simp [readNext, CellM.access, live]

theorem readPrev_run (live : heap.live addr = true) :
    (readPrev addr : CellM Addr) heap = .ok (heap.prev addr, heap) := by
  simp [readPrev, CellM.access, live]

theorem readWord_run (live : heap.live addr = true) :
    (readWord addr : CellM Word) heap = .ok (heap.word addr, heap) := by
  simp [readWord, CellM.access, live]

theorem writeNext_run (value : Addr) (live : heap.live addr = true) :
    (writeNext addr value : CellM Unit) heap =
      .ok ((), { heap with next := update heap.next addr value }) := by
  simp [writeNext, CellM.access, live]

theorem writePrev_run (value : Addr) (live : heap.live addr = true) :
    (writePrev addr value : CellM Unit) heap =
      .ok ((), { heap with prev := update heap.prev addr value }) := by
  simp [writePrev, CellM.access, live]

theorem writeWord_run (value : Word) (live : heap.live addr = true) :
    (writeWord addr value : CellM Unit) heap =
      .ok ((), { heap with word := update heap.word addr value }) := by
  simp [writeWord, CellM.access, live]

theorem kmalloc_run (size : Nat) (free : heap.Free addr) :
    (kmalloc addr size : CellM Unit) heap =
      .ok ((), { heap with live := update heap.live addr true }) := by
  simp [kmalloc, free]

theorem kfree_run (live : heap.live addr = true) :
    (kfree addr : CellM Unit) heap =
      .ok ((), { heap with live := update heap.live addr false }) := by
  simp [kfree, CellM.access, live]

end Primitives

theorem listAddBetween_run {heap : Heap} {new before after : Addr} (newLive : heap.live new = true)
    (beforeLive : heap.live before = true) (afterLive : heap.live after = true) :
    (listAddBetween new before after : CellM Unit) heap = .ok ((), { heap with
      next := update (update heap.next new after) before new
      prev := update (update heap.prev after new) new before }) := by
  simp only [listAddBetween, bind_apply, writePrev_run, writeNext_run, newLive, beforeLive, afterLive]

theorem listDel_run {heap : Heap} {entry : Addr} (live : heap.live entry = true)
    (beforeLive : heap.live (heap.prev entry) = true)
    (afterLive : heap.live (heap.next entry) = true) :
    (listDel entry : CellM Unit) heap = .ok ((), { heap with
      next := update (update heap.next (heap.prev entry) (heap.next entry)) entry listPoison1
      prev := update (update heap.prev (heap.next entry) (heap.prev entry)) entry listPoison2 }) := by
  simp only [listDel, bind_apply, readPrev_run, readNext_run, writePrev_run, writeNext_run, live,
    beforeLive, afterLive]

def Heap.make (heap : Heap) (addr : Addr) (value : Word) : Heap where
  next := update heap.next addr addr
  prev := update heap.prev addr addr
  word := update heap.word addr value
  live := update heap.live addr true

@[simp] theorem Heap.make_next (heap : Heap) (addr : Addr) (value : Word) :
    (heap.make addr value).next = update heap.next addr addr := rfl

@[simp] theorem Heap.make_prev (heap : Heap) (addr : Addr) (value : Word) :
    (heap.make addr value).prev = update heap.prev addr addr := rfl

@[simp] theorem Heap.make_word (heap : Heap) (addr : Addr) (value : Word) :
    (heap.make addr value).word = update heap.word addr value := rfl

@[simp] theorem Heap.make_live (heap : Heap) (addr : Addr) (value : Word) :
    (heap.make addr value).live = update heap.live addr true := rfl

theorem addNode_run {heap : Heap} {node : Addr} (value : Word) (free : heap.Free node) :
    (addNode node value : CellM Unit) heap = .ok ((), heap.make node value) := by
  simp only [addNode, initListHead, bind_apply, kmalloc_run, writeNext_run, writePrev_run,
    writeWord_run, free, update_self, Heap.make]

theorem addNode_free {heap : Heap} {node : Addr} {value : Word} {result : Unit × Heap}
    (ran : (addNode node value : CellM Unit) heap = .ok result) : heap.Free node := by
  obtain ⟨_, _, allocated, -⟩ := bind_ok ran
  by_contra taken
  simp [kmalloc, taken] at allocated

theorem addContainer_run {heap : Heap} {container : Addr} (free : heap.Free container) :
    (addContainer container : CellM Unit) heap = .ok ((), heap.make container 0) := by
  exact addNode_run 0 free

structure Heap.Sane (heap : Heap) : Prop where
  null : heap.live 0 = false
  poison1 : heap.live listPoison1 = false
  poison2 : heap.live listPoison2 = false

theorem Heap.Sane.make {heap : Heap} {addr : Addr} (sane : heap.Sane) (value : Word)
    (free : heap.Free addr) : (heap.make addr value).Sane := by
  obtain ⟨-, notNull, notPoison1, notPoison2⟩ := free
  constructor
  · rw [Heap.make_live, update_of_ne (Ne.symm notNull)]
    exact sane.null
  · rw [Heap.make_live, update_of_ne (Ne.symm notPoison1)]
    exact sane.poison1
  · rw [Heap.make_live, update_of_ne (Ne.symm notPoison2)]
    exact sane.poison2

theorem Heap.Sane.of_live_le {heap after : Heap} (sane : heap.Sane)
    (fewer : ∀ addr, after.live addr = true → heap.live addr = true) : after.Sane := by
  have dead (addr : Addr) (free : heap.live addr = false) : after.live addr = false := by
    by_contra alive
    have old := fewer addr (Bool.not_eq_false _ ▸ alive)
    simp [free] at old
  exact ⟨dead 0 sane.null, dead _ sane.poison1, dead _ sane.poison2⟩

/-- The struct at `l` heads a ring of these live nodes. -/
structure Holds (heap : Heap) (l : Addr) (nodes : List Addr) : Prop where
  ring : Ring heap.next heap.prev l nodes
  live : ∀ addr ∈ l :: nodes, heap.live addr = true
  sane : heap.Sane

section Holds

variable {heap : Heap} {l : Addr} {nodes : List Addr}

theorem Holds.headLive (holds : Holds heap l nodes) : heap.live l = true :=
  holds.live l (by simp)

theorem Holds.free_notMem (holds : Holds heap l nodes) {addr : Addr} (free : heap.Free addr) :
    addr ∉ l :: nodes := by
  intro member
  have live := holds.live addr member
  simp [free.1] at live

theorem Holds.ofFields (holds : Holds heap l nodes) {after : Heap} (next : after.next = heap.next)
    (prev : after.prev = heap.prev) (live : after.live = heap.live) : Holds after l nodes := by
  refine ⟨?_, ?_, holds.sane.of_live_le ?_⟩
  · rw [next, prev]
    exact holds.ring
  · rw [live]
    exact holds.live
  · intro addr
    rw [live]
    exact id

theorem Holds.make (holds : Holds heap l nodes) {addr : Addr} (value : Word)
    (free : heap.Free addr) : Holds (heap.make addr value) l nodes := by
  have outside := holds.free_notMem free
  have different (other : Addr) (member : other ∈ l :: nodes) : other ≠ addr := by
    intro same
    exact outside (same ▸ member)
  refine ⟨holds.ring.congr ?_ ?_, ?_, holds.sane.make value free⟩
  · intro other member
    exact update_of_ne (different other member) _ _
  · intro other member
    exact update_of_ne (different other member) _ _
  · intro other member
    rw [Heap.make_live, update_of_ne (different other member)]
    exact holds.live other member

theorem Holds.fresh (sane : heap.Sane) (value : Word) (free : heap.Free l) :
    Holds (heap.make l value) l [] := by
  refine ⟨ring_empty (by simp) (by simp), ?_, sane.make value free⟩
  simp

theorem Holds.kfree (holds : Holds heap l nodes) {addr : Addr} (outside : addr ∉ l :: nodes) :
    Holds { heap with live := update heap.live addr false } l nodes := by
  refine ⟨holds.ring, ?_, holds.sane.of_live_le ?_⟩
  · intro other member
    have different : other ≠ addr := fun same => outside (same ▸ member)
    simp only [update_of_ne different]
    exact holds.live other member
  · intro other
    by_cases same : other = addr
    · simp [same]
    · simp [update_of_ne same]

end Holds

theorem cut_before_mem (l : Addr) (first second : List Addr) :
    first.getLastD l ∈ l :: (first ++ second) := by
  rw [← List.getLast_eq_getLastD (List.cons_ne_nil l first), ← List.cons_append]
  exact List.mem_append_left _ (List.getLast_mem _)

theorem cut_after_mem (l : Addr) (first second : List Addr) :
    second.headD l ∈ l :: (first ++ second) := by
  cases second <;> simp

theorem Holds.splice {heap : Heap} {l new : Addr} {first second : List Addr}
    (holds : Holds heap l (first ++ second)) (newLive : heap.live new = true)
    (fresh : new ∉ l :: (first ++ second)) :
    ∃ after, (listAddBetween new (first.getLastD l) (second.headD l) : CellM Unit) heap =
        .ok ((), after) ∧ Holds after l (first ++ new :: second) ∧
      after.word = heap.word ∧ after.live = heap.live := by
  have beforeLive := holds.live _ (cut_before_mem l first second)
  have afterLive := holds.live _ (cut_after_mem l first second)
  refine ⟨_, listAddBetween_run newLive beforeLive afterLive, ?_, rfl, rfl⟩
  refine ⟨holds.ring.splice fresh, ?_, holds.sane.of_live_le fun _ => id⟩
  intro addr member
  have cases : addr = new ∨ addr ∈ l :: (first ++ second) := by
    simp only [List.mem_cons, List.mem_append] at member ⊢
    grind
  rcases cases with rfl | old
  · exact newLive
  · exact holds.live addr old

theorem Holds.unlink {heap : Heap} {l node : Addr} {first second : List Addr}
    (holds : Holds heap l (first ++ node :: second)) :
    ∃ after, (listDel node : CellM Unit) heap = .ok ((), after) ∧ Holds after l (first ++ second) ∧
      after.word = heap.word ∧ after.live = heap.live := by
  have shape : first ++ node :: second = (first ++ [node]) ++ second := by simp
  have leftLink := holds.ring.link_across
  have rightLink := (shape ▸ holds.ring).link_across
  simp only [List.headD_cons] at leftLink
  rw [List.getLastD_concat] at rightLink
  have beforeMember := cut_before_mem l first (node :: second)
  have afterMember := cut_after_mem l (first ++ [node]) second
  rw [← shape] at afterMember
  have ran := listDel_run (holds.live node (by simp))
    (by rw [leftLink.2]; exact holds.live _ beforeMember)
    (by rw [rightLink.1]; exact holds.live _ afterMember)
  rw [leftLink.2, rightLink.1] at ran
  refine ⟨_, ran, ?_, rfl, rfl⟩
  refine ⟨holds.ring.unlink, ?_, holds.sane.of_live_le fun _ => id⟩
  intro addr member
  refine holds.live addr ?_
  simp only [List.mem_cons, List.mem_append] at member ⊢
  grind

end LearnK.Container
