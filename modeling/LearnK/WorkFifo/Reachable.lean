import LearnK.WorkFifo.Invariant

/-! The steps of the workqueue's thread and of `workfifo_exit`, and the invariant over whole
runs. -/

namespace LearnK.WorkFifo

open StepMachine

theorem works_workStep {state next : State} (works : Works state)
    (stepped : workStep state = some next) : Works next := by
  have undrained : state.exit.drained = false := by
    by_contra drained
    obtain ⟨idle, empty⟩ := works.drained (by simpa using drained)
    simp [workStep, idle, empty] at stepped
  have queueing {worker : WorkerPc} {rest : List Nat} (item : Nat) :
      { state with worker := worker, workqueue := rest }.Queueing item ↔ state.Queueing item :=
    Iff.rfl
  cases worker : state.worker with
  | idle =>
      cases workqueue : state.workqueue with
      | nil => simp [workStep, worker, workqueue] at stepped
      | cons first rest =>
          simp only [workStep, worker, workqueue] at stepped
          cases stepped
          refine Works.ofUndrained undrained fun item => ?_
          have known := works.known item
          simp only [worker, workqueue, WorkerPc.item, List.mem_cons] at known ⊢
          rw [known]
          simp only [Option.some.injEq, reduceCtorEq, false_or, eq_comm, queueing]
          grind
  | print first =>
      simp only [workStep, worker] at stepped
      cases stepped
      refine Works.ofUndrained undrained fun item => ?_
      have known := works.known item
      rw [worker] at known
      exact known
  | kfree first =>
      simp only [workStep, worker] at stepped
      cases stepped
      refine Works.ofUndrained undrained fun item => ?_
      have known := works.known item
      rw [worker] at known
      change item ∈ state.accepted ↔ item ∈ state.processed ++ [first] ∨ none = some item ∨
        item ∈ state.workqueue ∨ state.Queueing item
      rw [known, List.mem_append, List.mem_singleton]
      simp only [WorkerPc.item, Option.some.injEq, reduceCtorEq, false_or, eq_comm]
      grind

structure ExitFrame (state next : State) : Prop where
  calls : next.calls = state.calls
  accepted : next.accepted = state.accepted
  processed : next.processed = state.processed
  worker : next.worker = state.worker
  workqueue : next.workqueue = state.workqueue
  fifo : next.fifo = state.fifo
  tail : next.fifoTail = state.fifoTail

theorem exitStep_frame {state next : State} (stepped : exitStep state = some next) :
    ExitFrame state next := by
  unfold exitStep at stepped
  split at stepped
  any_goals split at stepped
  all_goals first
    | cases stepped; exact ⟨rfl, rfl, rfl, rfl, rfl, rfl, rfl⟩
    | simp at stepped

theorem exitStep_begun {state next : State} (locked : Locked state)
    (stepped : exitStep state = some next) :
    (∀ call ∈ next.calls, call.pc.isReturned = true) ∧ next.exit ≠ .unloaded ∧
      (next.exit.critical = true → next.fifoLock = some .exit) := by
  have frame := exitStep_frame stepped
  cases exit : state.exit with
  | unloaded =>
      simp only [exitStep, exit] at stepped
      split at stepped <;> cases stepped
      rename_i returned
      refine ⟨fun call member => ?_, by simp, by simp [ExitPc.critical]⟩
      simpa using List.all_eq_true.mp returned call member
  | flush | lock =>
      have quiet := locked.quiet (by simp [exit])
      rw [← frame.calls] at quiet
      simp only [exitStep, exit] at stepped
      split at stepped <;> cases stepped
      exact ⟨quiet, by simp, by simp [ExitPc.critical]⟩
  | destroy | unlock =>
      have quiet := locked.quiet (by simp [exit])
      rw [← frame.calls] at quiet
      simp only [exitStep, exit] at stepped
      cases stepped
      exact ⟨quiet, by simp, by simp [ExitPc.critical]⟩
  | test =>
      have quiet := locked.quiet (by simp [exit])
      have held := locked.exit (by rw [exit]; rfl)
      rw [← frame.calls] at quiet
      simp only [exitStep, exit] at stepped
      cases stepped
      refine ⟨quiet, ?_, fun _ => held⟩
      show (if state.fifoHead ≠ state.fifoTail then ExitPc.take else .unlock) ≠ .unloaded
      split <;> simp
  | take | advance item | kfree item =>
      have quiet := locked.quiet (by simp [exit])
      have held := locked.exit (by rw [exit]; rfl)
      rw [← frame.calls] at quiet
      simp only [exitStep, exit] at stepped
      cases stepped
      exact ⟨quiet, by simp, fun _ => held⟩
  | done => simp [exitStep, exit] at stepped

theorem locked_exitStep {state next : State} (locked : Locked state)
    (stepped : exitStep state = some next) : Locked next := by
  obtain ⟨returned, -, held⟩ := exitStep_begun locked stepped
  refine ⟨fun self call present inside => ?_, held, fun _ => returned⟩
  have quiet := returned call (List.mem_of_getElem? present)
  cases pc : call.pc <;> simp [pc, EnqueuePc.critical, EnqueuePc.isReturned] at inside quiet

theorem placed_exitStep {state next : State} (placed : Placed state)
    (stepped : exitStep state = some next) : Placed next := by
  have frame := exitStep_frame stepped
  refine ⟨?_, ?_, ?_, ?_, ?_, ?_⟩
  · intro undrained
    cases exit : state.exit with
    | unloaded =>
        have before := placed.head (by rw [exit]; rfl)
        simp only [exitStep, exit] at stepped
        split at stepped <;> cases stepped
        exact before
    | flush | lock =>
        simp only [exitStep, exit] at stepped
        split at stepped <;> cases stepped
        simp [ExitPc.drained] at undrained
    | destroy | take | advance item | kfree item | unlock =>
        simp only [exitStep, exit] at stepped
        cases stepped
        simp [ExitPc.drained] at undrained
    | test =>
        simp only [exitStep, exit] at stepped
        cases stepped
        by_cases more : state.fifoHead ≠ state.fifoTail <;> simp [more, ExitPc.drained] at undrained
    | done => simp [exitStep, exit] at stepped
  · rw [frame.tail, frame.accepted]
    exact placed.tail
  · rw [frame.accepted]
    exact placed.small
  · rw [frame.calls, frame.accepted]
    exact placed.room
  · rw [frame.accepted, frame.fifo]
    exact placed.slot
  · rw [frame.calls, frame.fifo, frame.tail]
    exact placed.stored

theorem flushed_untouched {state : State} (shape : Shape state) (begun : state.exit = .flush)
    (empty : state.workqueue = []) (idle : state.worker = .idle) :
    state.fifoHead = state.fifoTail ∨ state.processed ≠ [] := by
  have head := shape.placed.head (by rw [begun]; rfl)
  cases accepted : state.accepted with
  | nil =>
      refine .inl ?_
      rw [head, shape.placed.tail, accepted]
      rfl
  | cons item rest =>
      have member : item ∈ state.accepted := by simp [accepted]
      rcases (shape.works.known item).mp member with done | running | queued | queueing
      · exact .inr (List.ne_nil_of_mem done)
      · simp [idle, WorkerPc.item] at running
      · simp [empty] at queued
      · obtain ⟨self, call, present, pc⟩ := queueing
        have returned := shape.locked.quiet (by simp [begun]) call (List.mem_of_getElem? present)
        simp [pc, EnqueuePc.isReturned] at returned

theorem works_exitStep {state next : State} (shape : Shape state)
    (stepped : exitStep state = some next) : Works next := by
  have works := shape.works
  have frame := exitStep_frame stepped
  have known (item : Nat) : item ∈ next.accepted ↔ item ∈ next.processed ∨
      next.worker.item = some item ∨ item ∈ next.workqueue ∨ next.Queueing item := by
    rw [State.Queueing, frame.accepted, frame.processed, frame.worker, frame.workqueue, frame.calls]
    exact works.known item
  have drained := works.drained
  have untouched := works.untouched
  have looping := works.looping
  cases exit : state.exit with
  | unloaded =>
      simp only [exitStep, exit] at stepped
      split at stepped <;> cases stepped
      exact Works.ofUndrained rfl known
  | flush =>
      simp only [exitStep, exit] at stepped
      split at stepped <;> cases stepped
      rename_i finished
      obtain ⟨empty, idle⟩ := finished
      have same := flushed_untouched shape exit empty idle
      exact ⟨known, fun _ => ⟨idle, empty⟩, fun _ => same, by simp [ExitPc.looping]⟩
  | destroy | unlock =>
      rw [exit] at drained untouched
      simp only [exitStep, exit] at stepped
      cases stepped
      exact ⟨known, fun _ => drained rfl, fun _ => untouched rfl, by simp [ExitPc.looping]⟩
  | lock =>
      rw [exit] at drained untouched
      simp only [exitStep, exit] at stepped
      split at stepped <;> cases stepped
      exact ⟨known, fun _ => drained rfl, fun _ => untouched rfl, by simp [ExitPc.looping]⟩
  | test =>
      rw [exit] at drained untouched
      simp only [exitStep, exit] at stepped
      cases stepped
      refine ⟨known, fun _ => drained rfl, fun _ => untouched rfl, fun inside => ?_⟩
      rcases untouched rfl with same | processed
      · simp [same, ExitPc.looping] at inside
      · exact processed
  | take | kfree item =>
      rw [exit] at drained untouched looping
      simp only [exitStep, exit] at stepped
      cases stepped
      exact ⟨known, fun _ => drained rfl, fun _ => untouched rfl, fun _ => looping rfl⟩
  | advance item =>
      rw [exit] at drained looping
      simp only [exitStep, exit] at stepped
      cases stepped
      exact ⟨known, fun _ => drained rfl, fun _ => .inr (looping rfl), fun _ => looping rfl⟩
  | done => simp [exitStep, exit] at stepped

theorem shape_enqueue {state : State} (shape : Shape state) (data : Int32)
    (unloaded : state.exit = .unloaded) :
    Shape { state with calls := state.calls ++ [⟨data, .lock, 0⟩] } := by
  constructor
  · refine ⟨fun self call found inside => ?_, shape.locked.exit, fun begun => absurd unloaded begun⟩
    rcases Numbered.append_cases found with before | ⟨-, rfl⟩
    · exact shape.locked.call self call before inside
    · simp [EnqueuePc.critical] at inside
  · refine ⟨shape.placed.head, shape.placed.tail, shape.placed.small, ?_, shape.placed.slot, ?_⟩
    · intro self call found inside
      rcases Numbered.append_cases found with before | ⟨-, rfl⟩
      · exact shape.placed.room self call before inside
      · simp [EnqueuePc.hasRoom] at inside
    · intro self call item found atAdvance
      rcases Numbered.append_cases found with before | ⟨-, rfl⟩
      · exact shape.placed.stored self call item before atAdvance
      · simp at atAdvance
  · refine Works.ofUndrained (congrArg ExitPc.drained unloaded) fun item => ?_
    have same : State.Queueing { state with calls := state.calls ++ [⟨data, .lock, 0⟩] } item ↔
        state.Queueing item := by
      constructor
      · rintro ⟨self, call, found, queueing⟩
        rcases Numbered.append_cases found with before | ⟨-, rfl⟩
        · exact ⟨self, call, before, queueing⟩
        · simp at queueing
      · rintro ⟨self, call, found, queueing⟩
        exact ⟨self, call, Numbered.append_old found, queueing⟩
    rw [same]
    exact shape.works.known item

theorem workStep_frame {state next : State} (stepped : workStep state = some next) :
    next.calls = state.calls ∧ next.fifoLock = state.fifoLock ∧ next.exit = state.exit ∧
      next.fifo = state.fifo ∧ next.fifoHead = state.fifoHead ∧ next.fifoTail = state.fifoTail ∧
      next.accepted = state.accepted := by
  simp only [workStep] at stepped
  split at stepped
  · split at stepped <;> cases stepped
    exact ⟨rfl, rfl, rfl, rfl, rfl, rfl, rfl⟩
  all_goals
    cases stepped
    exact ⟨rfl, rfl, rfl, rfl, rfl, rfl, rfl⟩

theorem locked_workStep {state next : State} (locked : Locked state)
    (stepped : workStep state = some next) : Locked next := by
  obtain ⟨calls, lock, exit, -⟩ := workStep_frame stepped
  refine ⟨?_, ?_, ?_⟩
  · rw [calls, lock]
    exact locked.call
  · rw [exit, lock]
    exact locked.exit
  · rw [exit, calls]
    exact locked.quiet

theorem placed_workStep {state next : State} (placed : Placed state)
    (stepped : workStep state = some next) : Placed next := by
  obtain ⟨calls, -, exit, fifo, head, tail, accepted⟩ := workStep_frame stepped
  refine ⟨?_, ?_, ?_, ?_, ?_, ?_⟩
  · rw [exit, head]
    exact placed.head
  · rw [tail, accepted]
    exact placed.tail
  · rw [accepted]
    exact placed.small
  · rw [calls, accepted]
    exact placed.room
  · rw [accepted, fifo]
    exact placed.slot
  · rw [calls, fifo, tail]
    exact placed.stored

theorem shape_step {state next : State} (action : Action) (shape : Shape state)
    (stepped : step state action = some next) : Shape next := by
  cases action with
  | enqueue data =>
      simp only [step] at stepped
      split at stepped <;> cases stepped
      rename_i unloaded
      exact shape_enqueue shape data unloaded
  | run self allocates =>
      obtain ⟨call, found, moved⟩ := Option.bind_eq_some_iff.mp stepped
      exact ⟨locked_enqueueStep shape.locked found moved,
        placed_enqueueStep shape.locked shape.placed found moved,
        works_enqueueStep shape.locked shape.works found moved⟩
  | work =>
      exact ⟨locked_workStep shape.locked stepped, placed_workStep shape.placed stepped,
        works_workStep shape.works stepped⟩
  | exit =>
      exact ⟨locked_exitStep shape.locked stepped, placed_exitStep shape.placed stepped,
        works_exitStep shape stepped⟩

theorem shape_initial : Shape initial := by
  refine ⟨⟨?_, ?_, ?_⟩, ⟨?_, rfl, by decide, ?_, ?_, ?_⟩, Works.ofUndrained rfl ?_⟩ <;>
    simp [initial, ExitPc.critical, State.Queueing, WorkerPc.item]

theorem shape_always (actions : List Action) : Always step Shape initial actions :=
  always_invariant (fun _ action _ shape stepped => shape_step action shape stepped) shape_initial
    actions

end LearnK.WorkFifo
