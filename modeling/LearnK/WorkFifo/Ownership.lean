import LearnK.WorkFifo.Reachable

/-! Who frees an item.  `work_handler` frees it while its slot is still in the ring, and
`workfifo_exit` frees what the ring holds. -/

namespace LearnK.WorkFifo

open StepMachine

/-- No item is freed twice, the ring refers to no freed item, and after the exit every item that
was accepted has been freed once. -/
structure Owned (state : State) : Prop where
  once : state.freed.Nodup
  window : ∀ slot ∈ state.window, ∀ item, state.fifo slot = some item → item ∉ state.freed
  released : state.exit = .done → ∀ item ∈ state.accepted, state.freed.count item = 1

def WorkerPc.isKfree : WorkerPc → Bool
  | .kfree _ => true
  | _ => false

def SparesItem (state : State) : Action → Prop
  | .work => state.worker.isKfree = false
  | _ => True

instance (state : State) : ∀ action, Decidable (SparesItem state action)
  | .work => inferInstanceAs (Decidable (_ = _))
  | .enqueue _ | .run _ _ | .exit => isTrue trivial

structure Unfreed (state : State) : Prop where
  processed : state.processed = []
  freed : state.freed = []

theorem mem_window {state : State} {index item : Nat} (shape : Shape state)
    (undrained : state.exit.drained = false) (held : state.accepted[index]? = some item) :
    index ∈ state.window := by
  have below : index < state.accepted.length := (List.getElem?_eq_some_iff.mp held).1
  have small := shape.placed.small
  have head := shape.placed.head undrained
  have tail := shape.placed.tail
  refine List.mem_map.mpr ⟨index, List.mem_range.mpr ?_, ?_⟩
  · rw [head, tail]
    unfold fifoSize at *
    omega
  · rw [head]
    unfold fifoSize at *
    omega

theorem owned_spares {state next : State} {action : Action} (shape : Shape state)
    (stepped : step state action = some next) (nextShape : Shape next) (owned : Owned next) :
    SparesItem state action := by
  cases action with
  | work =>
      cases worker : state.worker with
      | idle => exact congrArg WorkerPc.isKfree worker
      | print item => exact congrArg WorkerPc.isKfree worker
      | kfree item =>
          have undrained : state.exit.drained = false := by
            by_contra drained
            have idle := (shape.works.drained (by simpa using drained)).1
            simp [worker] at idle
          have member : item ∈ state.accepted :=
            (shape.works.known item).mpr (.inr (.inl (by rw [worker]; rfl)))
          obtain ⟨index, held⟩ := List.getElem?_of_mem member
          simp only [step, workStep, worker] at stepped
          cases stepped
          have inWindow := mem_window nextShape undrained held
          have slot := shape.placed.slot index item held
          exact absurd (by simp) (owned.window index inWindow item slot)
  | enqueue | run | exit => trivial

theorem unfreed_step {state next : State} {action : Action} (shape : Shape state)
    (unfreed : Unfreed state) (stepped : step state action = some next)
    (spares : SparesItem state action) : Unfreed next := by
  cases action with
  | enqueue data =>
      simp only [step] at stepped
      split at stepped <;> cases stepped
      exact ⟨unfreed.processed, unfreed.freed⟩
  | run self allocates =>
      obtain ⟨call, -, moved⟩ := Option.bind_eq_some_iff.mp stepped
      unfold enqueueStep at moved
      split at moved
      any_goals split at moved
      all_goals first
        | cases moved; exact ⟨unfreed.processed, unfreed.freed⟩
        | simp at moved
  | work =>
      simp only [step, workStep] at stepped
      split at stepped
      · split at stepped <;> cases stepped
        exact ⟨unfreed.processed, unfreed.freed⟩
      · cases stepped
        exact ⟨unfreed.processed, unfreed.freed⟩
      · rename_i worker
        simp [SparesItem, worker, WorkerPc.isKfree] at spares
  | exit =>
      have frame := exitStep_frame stepped
      refine ⟨frame.processed.trans unfreed.processed, ?_⟩
      simp only [step, exitStep] at stepped
      split at stepped
      case h_8 item exit =>
        have looping : state.exit.looping = true := by rw [exit]; rfl
        exact absurd unfreed.processed (shape.works.looping looping)
      any_goals split at stepped
      all_goals first
        | cases stepped; exact unfreed.freed
        | simp at stepped

theorem owned_of_unfreed {state : State} (shape : Shape state) (unfreed : Unfreed state) :
    Owned state := by
  refine ⟨by simp [unfreed.freed], fun _ _ _ _ => by simp [unfreed.freed], ?_⟩
  intro done item member
  obtain ⟨idle, empty⟩ := shape.works.drained (by rw [done]; rfl)
  rcases (shape.works.known item).mp member with processed | running | queued | queueing
  · simp [unfreed.processed] at processed
  · simp [idle, WorkerPc.item] at running
  · simp [empty] at queued
  · obtain ⟨self, call, present, pc⟩ := queueing
    have returned := shape.locked.quiet (by simp [done]) call (List.mem_of_getElem? present)
    simp [pc, EnqueuePc.isReturned] at returned

/-- A run keeps the ownership of all items in order exactly as long as `work_handler` frees
none. -/
theorem workFifo_owned_iff (actions : List Action) :
    Always step Owned initial actions ↔ EachStep step SparesItem initial actions := by
  have caught (state : State) (action : Action) (next : State) (_ : True) (_ : Unfreed state)
      (shape : Shape state) (stepped : step state action = some next) (nextShape : Shape next)
      (owned : Owned next) : SparesItem state action := owned_spares shape stepped nextShape owned
  have kept (state : State) (action : Action) (next : State) (_ : True) (unfreed : Unfreed state)
      (shape : Shape state) (stepped : step state action = some next) (_ : Shape next)
      (spares : SparesItem state action) : Unfreed next := unfreed_step shape unfreed stepped spares
  exact always_iff_eachStep_clean (fun _ => True) caught kept (fun _ => owned_of_unfreed)
    (fun _ _ => trivial) (shape_always actions) ⟨rfl, rfl⟩

def enqueueOnce (self : Nat) : List Action :=
  .enqueue 1 :: List.replicate 8 (.run self true)

def processOnce : List Action := List.replicate 3 .work

theorem workfifoExit_frees_again :
    (run step initial (enqueueOnce 0 ++ processOnce)).map (fun state =>
      (state.window, state.fifo 0, state.freed)) = some ([0], some 0, [0]) ∧
    (run step initial (enqueueOnce 0 ++ processOnce ++ List.replicate 10 .exit)).map (fun state =>
      (state.exit, state.accepted, state.freed)) = some (.done, [0], [0, 0]) := by
  decide

end LearnK.WorkFifo
