import LearnK.Container.Programs
import LearnK.Container.Sequence
import LearnK.Lib.Ledger

/-! The container functions on a heap that keeps a ledger of `kmalloc` and `kfree`: they do what they
do without it, and the ledger accounts for every struct that becomes live or dead. -/

namespace LearnK.Container

open FaultM ListMemory StepMachine Function Ledger

structure Recorded where
  heap : Heap
  log : List (Event Addr)

abbrev LedgerM : Type → Type := FaultM Fault Recorded

def LedgerM.lift {α : Type} (action : CellM α) (events : List (Event Addr)) : LedgerM α := fun state =>
  match action state.heap with
  | .ok (value, heap) => .ok (value, ⟨heap, state.log ++ events⟩)
  | .error fault => .error fault

instance : ListMemory LedgerM where
  readNext addr := LedgerM.lift (readNext addr) []
  readPrev addr := LedgerM.lift (readPrev addr) []
  readWord addr := LedgerM.lift (readWord addr) []
  writeNext addr value := LedgerM.lift (writeNext addr value) []
  writePrev addr value := LedgerM.lift (writePrev addr value) []
  writeWord addr value := LedgerM.lift (writeWord addr value) []
  kmalloc addr size := LedgerM.lift (kmalloc addr size) [.alloc addr]
  kfree addr := LedgerM.lift (kfree addr) [.free addr]
  fault reason := LedgerM.lift (fault reason) []

def Records (Allowed : Addr → Prop) {α : Type} (recorded : LedgerM α) (cell : CellM α) : Prop :=
  ∀ heap log value after, cell heap = .ok (value, after) →
    ∃ events, recorded ⟨heap, log⟩ = .ok (value, ⟨after, log ++ events⟩) ∧
      run Ledger.step heap.live events = some after.live ∧
      ∀ block, .alloc block ∈ events → Allowed block

section Records

variable {Allowed : Addr → Prop} {α β : Type}

theorem Records.pure (value : α) :
    Records Allowed (Pure.pure value : LedgerM α) (Pure.pure value) := by
  intro heap log result after ran
  obtain ⟨rfl, rfl⟩ := Prod.mk.inj (Except.ok.inj ran)
  exact ⟨[], by rw [List.append_nil]; rfl, rfl, by simp⟩

theorem Records.bind {recorded : LedgerM α} {cell : CellM α} {rest : α → LedgerM β}
    {cellRest : α → CellM β} (first : Records Allowed recorded cell)
    (second : ∀ value, Records Allowed (rest value) (cellRest value)) :
    Records Allowed (recorded >>= rest) (cell >>= cellRest) := by
  intro heap log result after ran
  obtain ⟨value, middle, firstRan, secondRan⟩ := bind_ok ran
  obtain ⟨early, matched, before, allowedEarly⟩ := first heap log value middle firstRan
  obtain ⟨late, finished, later, allowedLate⟩ :=
    second value middle (log ++ early) result after secondRan
  refine ⟨early ++ late, ?_, ?_, ?_⟩
  · rw [bind_apply, matched, ← List.append_assoc]
    exact finished
  · rw [run_append, before]
    exact later
  · intro block member
    rcases List.mem_append.mp member with here | there
    · exact allowedEarly block here
    · exact allowedLate block there

theorem LedgerM.lift_ok {action : CellM α} {heap after : Heap} {value : α}
    (ran : action heap = .ok (value, after)) (log events : List (Event Addr)) :
    LedgerM.lift action events ⟨heap, log⟩ = .ok (value, ⟨after, log ++ events⟩) := by
  rw [LedgerM.lift, ran]

theorem records_access {addr : Addr} {result : Heap → α × Heap}
    (quiet : ∀ heap, (result heap).2.live = heap.live) :
    Records Allowed (LedgerM.lift (CellM.access addr result) []) (CellM.access addr result) := by
  intro heap log value after ran
  obtain ⟨-, same⟩ := access_ok ran
  have live : after.live = heap.live := by
    rw [← quiet heap, same]
  exact ⟨[], LedgerM.lift_ok ran log [], by rw [live]; rfl, by simp⟩

theorem records_kmalloc {addr : Addr} (size : Nat) (allowed : Allowed addr) :
    Records Allowed (kmalloc addr size : LedgerM Unit) (kmalloc addr size) := by
  intro heap log value after ran
  have free : heap.Free addr := by
    by_contra taken
    simp [kmalloc, taken] at ran
  obtain ⟨-, rfl⟩ := ok_unique ran (kmalloc_run size free)
  refine ⟨[.alloc addr], LedgerM.lift_ok ran log _, ?_, ?_⟩
  · rw [run_cons, step_alloc free.1]
    rfl
  · intro block member
    obtain rfl : block = addr := by simpa using member
    exact allowed

theorem records_kfree (addr : Addr) :
    Records Allowed (kfree addr : LedgerM Unit) (kfree addr) := by
  intro heap log value after ran
  have live := (access_ok ran).1
  obtain ⟨-, rfl⟩ := ok_unique ran (kfree_run live)
  refine ⟨[.free addr], LedgerM.lift_ok ran log _, ?_, by simp⟩
  rw [run_cons, step_free live]
  rfl

theorem records_closed (Allowed : Addr → Prop) :
    Closed Allowed fun α (recorded : LedgerM α) (cell : CellM α) =>
      Records Allowed recorded cell where
  pure := Records.pure
  bind := Records.bind
  readNext _ := records_access fun _ => rfl
  readPrev _ := records_access fun _ => rfl
  readWord _ := records_access fun _ => rfl
  writeNext _ _ := records_access fun _ => rfl
  writePrev _ _ := records_access fun _ => rfl
  writeWord _ _ := records_access fun _ => rfl
  addNode node value allowed := by
    refine Records.bind (records_kmalloc _ allowed) fun _ => ?_
    refine Records.bind ?_ fun _ => records_access fun _ => rfl
    exact Records.bind (records_access fun _ => rfl) fun _ => records_access fun _ => rfl
  kfree addr := records_kfree addr
  fault reason := by
    intro heap log value after ran
    simp [ListMemory.fault] at ran

end Records

end LearnK.Container
