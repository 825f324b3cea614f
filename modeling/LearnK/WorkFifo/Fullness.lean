import LearnK.WorkFifo.Reachable

/-! When `enqueue` finds the ring full.  The head stays where it is until the module is unloaded,
so the test counts the items that ever entered. -/

namespace LearnK.WorkFifo

open StepMachine

def EnqueuePc.rejected : EnqueuePc → Option Bool
  | .lock | .testFull => none
  | .kmalloc | .fill _ | .store _ | .advance _ | .queueWork _ => some false
  | .unlock ret | .returned ret => some (decide (ret < 0))

/-- Every call so far is rejected exactly when `FIFO_SIZE - 1` accepted items were waiting for
`work_handler`. -/
def RejectsWhenFull (state : State) : Prop :=
  ∀ (self : Nat) (call : Call), state.calls[self]? = some call → ∀ rejected,
    call.pc.rejected = some rejected → (rejected = true ↔ call.unprocessed = fifoSize - 1)

def TestsFairly (state : State) : Action → Prop
  | .run self _ => (state.calls[self]?.map Call.pc) = some .testFull →
      state.accepted.length < fifoSize - 1 ∨ state.processed = []
  | _ => True

instance (state : State) : ∀ action, Decidable (TestsFairly state action)
  | .run _ _ => inferInstanceAs (Decidable (_ → _))
  | .enqueue _ | .work | .exit => isTrue trivial

def Action.allocates : Action → Bool
  | .run _ allocates => allocates
  | _ => true

theorem unprocessed_full_iff {state : State} (shape : Shape state) :
    state.unprocessed = fifoSize - 1 ↔
      state.accepted.length = fifoSize - 1 ∧ state.processed = [] := by
  have small := shape.placed.small
  have some_of := List.length_filter_le (fun item => !state.processed.contains item) state.accepted
  constructor
  · intro all
    rw [State.unprocessed] at all
    have count : state.accepted.length = fifoSize - 1 := by
      unfold fifoSize at *
      omega
    refine ⟨count, List.eq_nil_iff_forall_not_mem.mpr fun item processed => ?_⟩
    have kept := List.length_filter_eq_length_iff.mp (all.trans count.symm)
    have accepted := (shape.works.known item).mpr (.inl processed)
    have waiting := kept item accepted
    simp [processed] at waiting
  · rintro ⟨count, none⟩
    simp [State.unprocessed, none, count]

theorem full_iff {state : State} (shape : Shape state) (unloaded : state.exit = .unloaded) :
    (state.fifoTail + 1) % fifoSize = state.fifoHead ↔ state.accepted.length = fifoSize - 1 := by
  have small := shape.placed.small
  rw [shape.placed.head (by rw [unloaded]; rfl), shape.placed.tail]
  unfold fifoSize at *
  omega

theorem RejectsWhenFull.goto {state next : State} {self : Nat} {before called : Call}
    {pc : EnqueuePc} (fair : RejectsWhenFull state) (found : state.calls[self]? = some before)
    (calls : next.calls = (state.goto self called pc).calls) :
    RejectsWhenFull next ↔ ∀ rejected, pc.rejected = some rejected →
      (rejected = true ↔ called.unprocessed = fifoSize - 1) := by
  constructor
  · intro after rejected decided
    have present : next.calls[self]? = some { called with pc := pc } := by
      rw [calls]
      exact State.goto_self found
    exact after self _ present rejected decided
  · intro here index other present rejected decided
    rw [calls] at present
    rcases State.goto_get present with ⟨rfl, rfl⟩ | ⟨-, kept⟩
    · exact here rejected decided
    · exact fair index other kept rejected decided

theorem rejects_enqueueStep {self : Nat} {call : Call} {state next : State} (shape : Shape state)
    (fair : RejectsWhenFull state) (found : state.calls[self]? = some call)
    (stepped : enqueueStep self true call state = some next) :
    RejectsWhenFull next ↔ (call.pc = .testFull →
      state.accepted.length < fifoSize - 1 ∨ state.processed = []) := by
  have mine := fair self call found
  cases pc : call.pc with
  | testFull =>
      have unloaded := shape.locked.unloaded found (enqueueStep_active stepped)
      have full := full_iff shape unloaded
      have waiting := unprocessed_full_iff shape
      have small := shape.placed.small
      simp only [enqueueStep, pc] at stepped
      split at stepped
      · rename_i isFull
        cases stepped
        have count := full.mp isFull
        refine (fair.goto found rfl).trans ?_
        simp [EnqueuePc.rejected, waiting, count]
      · rename_i notFull
        cases stepped
        have count : state.accepted.length ≠ fifoSize - 1 := fun same => notFull (full.mpr same)
        have fewer : state.accepted.length < fifoSize - 1 := by
          unfold fifoSize at *
          omega
        refine (fair.goto found rfl).trans ?_
        simp [EnqueuePc.rejected, waiting, count, fewer]
  | lock =>
      simp only [enqueueStep, pc] at stepped
      split at stepped <;> cases stepped
      refine (fair.goto found rfl).trans ?_
      simp [EnqueuePc.rejected]
  | kmalloc | fill item | store item | advance item | queueWork item | unlock ret =>
      rw [pc] at mine
      simp only [enqueueStep, pc, if_true] at stepped
      cases stepped
      exact (fair.goto found rfl).trans (iff_of_true mine (by simp))
  | returned ret => simp [enqueueStep, pc] at stepped

theorem rejects_step {state next : State} {action : Action} (allocates : action.allocates = true)
    (fair : RejectsWhenFull state) (shape : Shape state) (stepped : step state action = some next) :
    RejectsWhenFull next ↔ TestsFairly state action := by
  cases action with
  | enqueue data =>
      refine iff_of_true ?_ trivial
      simp only [step] at stepped
      split at stepped <;> cases stepped
      intro self call present rejected decided
      rcases Numbered.append_cases present with before | ⟨-, rfl⟩
      · exact fair self call before rejected decided
      · simp [EnqueuePc.rejected] at decided
  | run self allocated =>
      obtain rfl : allocated = true := allocates
      obtain ⟨call, found, moved⟩ := Option.bind_eq_some_iff.mp stepped
      rw [rejects_enqueueStep shape fair found moved, TestsFairly, found]
      simp
  | work =>
      refine iff_of_true ?_ trivial
      have calls : next.calls = state.calls := by
        simp only [step, workStep] at stepped
        split at stepped
        · split at stepped <;> cases stepped
          rfl
        all_goals
          cases stepped
          rfl
      rw [RejectsWhenFull, calls]
      exact fair
  | exit =>
      refine iff_of_true ?_ trivial
      rw [RejectsWhenFull, (exitStep_frame stepped).calls]
      exact fair

/-- In a run with successful allocations `enqueue` rejects what it should exactly as long as no
call tests for a full ring after nine items have been accepted and one has been processed. -/
theorem enqueue_rejects_iff (actions : List Action)
    (allocates : ∀ action ∈ actions, action.allocates = true) :
    Always step RejectsWhenFull initial actions ↔ EachStep step TestsFairly initial actions :=
  always_iff_eachStep_clean (fun action => action.allocates = true)
    (fun _ _ _ allocates fair shape stepped _ =>
      (rejects_step allocates fair shape stepped).mp)
    (fun _ _ _ allocates fair shape stepped _ =>
      (rejects_step allocates fair shape stepped).mpr)
    (fun _ _ fair => fair) allocates (shape_always actions) (by simp [RejectsWhenFull, initial])

def enqueueAndProcess (self : Nat) : List Action :=
  .enqueue 1 :: List.replicate 8 (.run self true) ++ List.replicate 3 .work

def keepingUp : List Action :=
  (List.range 9).flatMap enqueueAndProcess ++ .enqueue 1 :: List.replicate 3 (.run 9 true)

theorem enqueue_rejects_iff_oneItem :
    (∀ action ∈ enqueueAndProcess 0, action.allocates = true) ∧
      Always step RejectsWhenFull initial (enqueueAndProcess 0) :=
  ⟨by decide, (enqueue_rejects_iff (enqueueAndProcess 0) (by decide)).mpr (by decide)⟩

theorem enqueue_rejects_idle :
    (run step initial keepingUp).map (fun state =>
      (state.calls[9]?, state.workqueue, state.worker, state.processed)) =
        some (some ⟨1, .returned (-1), 0⟩, [], .idle, List.range 9) := by
  decide +kernel

end LearnK.WorkFifo
