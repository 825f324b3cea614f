import LearnK.WorkFifo.Reachable
import Mathlib.Data.List.Perm.Basic

/-! What reaches the log: each item that entered the ring is printed once, in the order of entry and
with the data of its call, and the flush leaves none out. -/

namespace LearnK.WorkFifo

open StepMachine

def EnqueuePc.entered : EnqueuePc → Bool
  | .queueWork _ => true
  | .unlock ret | .returned ret => ret == 0
  | _ => false

def EnqueuePc.made : EnqueuePc → Option Nat
  | .fill item | .store item | .advance item => some item
  | _ => none

def EnqueuePc.isFilled : EnqueuePc → Bool
  | .store _ | .advance _ => true
  | _ => false

def WorkerPc.printedItem : WorkerPc → List Nat
  | .kfree item => [item]
  | _ => []

def State.acceptedData (state : State) : List Int32 := state.accepted.map state.data

def State.enteredData (state : State) : List Int32 :=
  (state.calls.filter fun call => call.pc.entered).map Call.data

structure Filled (state : State) : Prop where
  known : ∀ item ∈ state.accepted, item < state.allocated
  fresh : ∀ (self : Nat) (call : Call) (item : Nat), state.calls[self]? = some call →
    call.pc.made = some item → item < state.allocated ∧ item ∉ state.accepted
  filled : ∀ (self : Nat) (call : Call) (item : Nat), state.calls[self]? = some call →
    call.pc.made = some item → call.pc.isFilled = true → state.data item = call.data
  entered : state.acceptedData.Perm state.enteredData

/-- The items in the order they entered: processed, in the handler, queued, and the one that its
call is about to queue. -/
structure Line (state : State) (pending : List Nat) : Prop where
  line : state.accepted = state.processed ++ state.worker.item.toList ++ state.workqueue ++ pending
  short : pending.length ≤ 1
  queueing : ∀ item, pending = [item] ↔ state.Queueing item
  printed : state.printed = (state.processed ++ state.worker.printedItem).map state.data

theorem EnqueuePc.critical_of_made {pc : EnqueuePc} {item : Nat} (made : pc.made = some item) :
    pc.critical = true := by
  cases pc <;> first | rfl | simp [EnqueuePc.made] at made

theorem enteredData_same {calls : List Call} {self : Nat} {call called : Call}
    (found : calls[self]? = some call) (same : called.data = call.data)
    (entered : called.pc.entered = call.pc.entered) :
    ((calls.set self called).filter fun call => call.pc.entered).map Call.data =
      (calls.filter fun call => call.pc.entered).map Call.data := by
  obtain ⟨before, after, split, replaced⟩ := Numbered.set_split found
  rw [replaced, split]
  cases inside : call.pc.entered <;> simp [inside, entered, same]

theorem enteredData_enters {calls : List Call} {self : Nat} {call : Call} (called : Call)
    (found : calls[self]? = some call) (same : called.data = call.data)
    (was : call.pc.entered = false) (now : called.pc.entered = true) :
    (((calls.set self called).filter fun call => call.pc.entered).map Call.data).Perm
      ((calls.filter fun call => call.pc.entered).map Call.data ++ [call.data]) := by
  obtain ⟨before, after, split, replaced⟩ := Numbered.set_split found
  rw [replaced, split]
  simp only [List.filter_append, List.filter_cons, was, now, same, List.map_append, if_true,
    Bool.false_eq_true, if_false, List.map_cons, List.append_assoc]
  exact List.Perm.append_left _ (List.perm_append_singleton _ _).symm

theorem Filled.goto {state next : State} {self : Nat} {call called : Call} {pc : EnqueuePc}
    (locked : Locked state) (filled : Filled state) (found : state.calls[self]? = some call)
    (calls : next.calls = (state.goto self called pc).calls) (accepted : next.accepted = state.accepted)
    (allocated : state.allocated ≤ next.allocated) (same : called.data = call.data)
    (entered : pc.entered = call.pc.entered)
    (data : ∀ item, call.pc.made ≠ some item → next.data item = state.data item)
    (made : ∀ item, pc.made = some item → item < next.allocated ∧ item ∉ state.accepted ∧
      (pc.isFilled = true → next.data item = call.data)) : Filled next := by
  have keeps (item : Nat) (member : item ∈ state.accepted) : next.data item = state.data item :=
    data item fun mine => (filled.fresh self call item found mine).2 member
  refine ⟨fun item member => ?_, fun index other item present its => ?_,
    fun index other item present its done => ?_, ?_⟩
  · rw [accepted] at member
    exact Nat.lt_of_lt_of_le (filled.known item member) allocated
  · rw [calls] at present
    rw [accepted]
    rcases State.goto_get present with ⟨-, rfl⟩ | ⟨-, before⟩
    · exact ⟨(made item its).1, (made item its).2.1⟩
    · obtain ⟨below, outside⟩ := filled.fresh index other item before its
      exact ⟨Nat.lt_of_lt_of_le below allocated, outside⟩
  · rw [calls] at present
    rcases State.goto_get present with ⟨-, rfl⟩ | ⟨apart, before⟩
    · exact ((made item its).2.2 done).trans same.symm
    · rw [data item fun mine => ?_]
      · exact filled.filled index other item before its done
      · exact apart (locked.alone found before (EnqueuePc.critical_of_made mine)
          (EnqueuePc.critical_of_made its))
  · have accepts : next.acceptedData = state.acceptedData := by
      rw [State.acceptedData, accepted]
      exact List.map_congr_left keeps
    have enters : next.enteredData = state.enteredData := by
      rw [State.enteredData, calls]
      exact enteredData_same found same entered
    rw [accepts, enters]
    exact filled.entered

theorem filled_advance {state : State} {self item : Nat} {call : Call} (locked : Locked state)
    (filled : Filled state) (found : state.calls[self]? = some call) (pc : call.pc = .advance item) :
    Filled { state.goto self call (.queueWork item) with
      fifoTail := (state.fifoTail + 1) % fifoSize
      accepted := state.accepted ++ [item] } := by
  have mine : call.pc.made = some item := by rw [pc]; rfl
  obtain ⟨below, -⟩ := filled.fresh self call item found mine
  have here := filled.filled self call item found mine (by rw [pc]; rfl)
  have idle {index : Nat} {other : Call} {made : Nat}
      (present : (state.goto self call (.queueWork item)).calls[index]? = some other) :
      other.pc.made ≠ some made := by
    intro its
    rcases State.goto_get present with ⟨-, rfl⟩ | ⟨apart, before⟩
    · simp [EnqueuePc.made] at its
    · exact apart (locked.alone found before (EnqueuePc.critical_of_made mine)
        (EnqueuePc.critical_of_made its))
  refine ⟨fun other member => ?_, fun _ _ _ present its => absurd its (idle present),
    fun _ _ _ present its _ => absurd its (idle present), ?_⟩
  · rcases List.mem_append.mp member with old | new
    · exact filled.known other old
    · obtain rfl := List.mem_singleton.mp new
      exact below
  · have enters := enteredData_enters { call with pc := .queueWork item } found rfl
      (by rw [pc]; rfl) rfl
    have last : (state.accepted ++ [item]).map state.data = state.acceptedData ++ [call.data] := by
      rw [List.map_append, List.map_singleton, here]
      rfl
    change ((state.accepted ++ [item]).map state.data).Perm _
    rw [last]
    exact (filled.entered.append_right _).trans enters.symm

theorem filled_enqueueStep {self : Nat} {allocates : Bool} {call : Call} {state next : State}
    (locked : Locked state) (filled : Filled state) (found : state.calls[self]? = some call)
    (stepped : enqueueStep self allocates call state = some next) : Filled next := by
  cases pc : call.pc with
  | lock =>
      simp only [enqueueStep, pc] at stepped
      split at stepped <;> cases stepped
      exact filled.goto locked found rfl rfl (Nat.le_refl _) rfl (by rw [pc]; rfl) (fun _ _ => rfl)
        (by simp [EnqueuePc.made])
  | testFull =>
      simp only [enqueueStep, pc] at stepped
      split at stepped <;> cases stepped <;>
        exact filled.goto locked found rfl rfl (Nat.le_refl _) rfl (by rw [pc]; rfl) (fun _ _ => rfl)
          (by simp [EnqueuePc.made])
  | kmalloc =>
      simp only [enqueueStep, pc] at stepped
      split at stepped <;> cases stepped
      · refine filled.goto locked found rfl rfl (Nat.le_succ _) rfl (by rw [pc]; rfl) (fun _ _ => rfl) ?_
        intro item new
        obtain rfl := Option.some.inj new
        refine ⟨Nat.lt_succ_self _, fun member => ?_, by simp [EnqueuePc.isFilled]⟩
        exact Nat.lt_irrefl _ (filled.known _ member)
      · exact filled.goto locked found rfl rfl (Nat.le_refl _) rfl (by rw [pc]; rfl) (fun _ _ => rfl)
          (by simp [EnqueuePc.made])
  | fill item =>
      have mine : call.pc.made = some item := by rw [pc]; rfl
      obtain ⟨below, outside⟩ := filled.fresh self call item found mine
      simp only [enqueueStep, pc] at stepped
      cases stepped
      refine filled.goto locked found rfl rfl (Nat.le_refl _) rfl (by rw [pc]; rfl) ?_ ?_
      · intro other apart
        refine if_neg ?_
        rintro rfl
        exact apart mine
      · intro other new
        obtain rfl := Option.some.inj new
        exact ⟨below, outside, fun _ => if_pos rfl⟩
  | store item =>
      have mine : call.pc.made = some item := by rw [pc]; rfl
      obtain ⟨below, outside⟩ := filled.fresh self call item found mine
      have here := filled.filled self call item found mine (by rw [pc]; rfl)
      simp only [enqueueStep, pc] at stepped
      cases stepped
      refine filled.goto locked found rfl rfl (Nat.le_refl _) rfl (by rw [pc]; rfl) (fun _ _ => rfl) ?_
      intro other new
      obtain rfl := Option.some.inj new
      exact ⟨below, outside, fun _ => here⟩
  | advance item =>
      simp only [enqueueStep, pc] at stepped
      cases stepped
      exact filled_advance locked filled found pc
  | queueWork item =>
      simp only [enqueueStep, pc] at stepped
      cases stepped
      exact filled.goto locked found rfl rfl (Nat.le_refl _) rfl (by rw [pc]; rfl) (fun _ _ => rfl)
        (by simp [EnqueuePc.made])
  | unlock ret =>
      simp only [enqueueStep, pc] at stepped
      cases stepped
      exact filled.goto locked found rfl rfl (Nat.le_refl _) rfl (by rw [pc]; rfl) (fun _ _ => rfl)
        (by simp [EnqueuePc.made])
  | returned ret => simp [enqueueStep, pc] at stepped

theorem filled_step {state next : State} {action : Action} (locked : Locked state)
    (filled : Filled state) (stepped : step state action = some next) : Filled next := by
  have unchanged (calls : next.calls = state.calls) (accepted : next.accepted = state.accepted)
      (allocated : next.allocated = state.allocated) (data : next.data = state.data) : Filled next := by
    refine ⟨?_, ?_, ?_, ?_⟩
    · rw [accepted, allocated]
      exact filled.known
    · rw [calls, accepted, allocated]
      exact filled.fresh
    · rw [calls, data]
      exact filled.filled
    · rw [State.acceptedData, State.enteredData, calls, accepted, data]
      exact filled.entered
  cases action with
  | enqueue data =>
      simp only [step] at stepped
      split at stepped <;> cases stepped
      refine ⟨filled.known, fun self call item found made => ?_,
        fun self call item found made done => ?_, ?_⟩
      · rcases Numbered.append_cases found with before | ⟨-, rfl⟩
        · exact filled.fresh self call item before made
        · simp [EnqueuePc.made] at made
      · rcases Numbered.append_cases found with before | ⟨-, rfl⟩
        · exact filled.filled self call item before made done
        · simp [EnqueuePc.made] at made
      · have same : State.enteredData { state with calls := state.calls ++ [⟨data, .lock, 0⟩] } =
            state.enteredData := by
          simp [State.enteredData, EnqueuePc.entered]
        rw [same]
        exact filled.entered
  | run self allocates =>
      obtain ⟨call, found, moved⟩ := Option.bind_eq_some_iff.mp stepped
      exact filled_enqueueStep locked filled found moved
  | work =>
      simp only [step, workStep] at stepped
      split at stepped
      · split at stepped <;> cases stepped
        exact unchanged rfl rfl rfl rfl
      all_goals
        cases stepped
        exact unchanged rfl rfl rfl rfl
  | exit =>
      simp only [step, exitStep] at stepped
      split at stepped
      any_goals split at stepped
      all_goals first
        | cases stepped; exact unchanged rfl rfl rfl rfl
        | simp at stepped

theorem Line.member {state : State} {pending : List Nat} (line : Line state pending) {item : Nat}
    (processed : item ∈ state.processed ++ state.worker.printedItem) : item ∈ state.accepted := by
  rw [line.line]
  cases worker : state.worker with
  | idle | print other =>
      rw [worker] at processed
      simp only [WorkerPc.printedItem, List.append_nil] at processed
      simp [processed]
  | kfree other =>
      rw [worker] at processed
      simpa [WorkerPc.printedItem, WorkerPc.item, or_assoc] using Or.imp_right Or.inl
        (List.mem_append.mp processed)

theorem Line.goto {state next : State} {self : Nat} {call called : Call} {pc : EnqueuePc}
    {pending : List Nat} (filled : Filled state) (line : Line state pending)
    (found : state.calls[self]? = some call)
    (calls : next.calls = (state.goto self called pc).calls) (accepted : next.accepted = state.accepted)
    (processed : next.processed = state.processed) (worker : next.worker = state.worker)
    (workqueue : next.workqueue = state.workqueue) (printed : next.printed = state.printed)
    (data : ∀ item, call.pc.made ≠ some item → next.data item = state.data item)
    (was : ∀ item, call.pc ≠ .queueWork item) (now : ∀ item, pc ≠ .queueWork item) :
    Line next pending := by
  refine ⟨?_, line.short, fun item => ?_, ?_⟩
  · rw [accepted, processed, worker, workqueue]
    exact line.line
  · have moved : (state.goto self called pc).Queueing item ↔ state.Queueing item :=
      State.queueing_goto_plain found (was item) (now item)
    have same : next.Queueing item ↔ (state.goto self called pc).Queueing item := by
      rw [State.Queueing, calls]
      rfl
    rw [same, moved]
    exact line.queueing item
  · rw [printed, processed, worker, line.printed]
    refine List.map_congr_left fun item member => (data item fun mine => ?_).symm
    exact (filled.fresh self call item found mine).2 (line.member member)

theorem Line.empty {state : State} {pending : List Nat} (line : Line state pending)
    (none : ∀ item, ¬state.Queueing item) : pending = [] := by
  match pending, line.short with
  | [], _ => rfl
  | [item], _ => exact absurd ((line.queueing item).mp rfl) (none item)

theorem line_enqueueStep {self : Nat} {allocates : Bool} {call : Call} {state next : State}
    {pending : List Nat} (locked : Locked state) (filled : Filled state) (line : Line state pending)
    (found : state.calls[self]? = some call)
    (stepped : enqueueStep self allocates call state = some next) : ∃ pending, Line next pending := by
  have others {item : Nat} (inside : call.pc.critical = true) (apart : call.pc ≠ .queueWork item) :
      ¬state.Queueing item := by
    rintro ⟨index, other, present, queueing⟩
    have alone := locked.alone found present inside (by rw [queueing]; rfl)
    subst index
    obtain rfl := Option.some.inj (found.symm.trans present)
    exact apart queueing
  cases pc : call.pc with
  | lock | testFull | kmalloc =>
      have plain (item : Nat) : call.pc ≠ .queueWork item := by simp [pc]
      simp only [enqueueStep, pc] at stepped
      split at stepped <;> cases stepped <;>
        exact ⟨pending, line.goto filled found rfl rfl rfl rfl rfl rfl (fun _ _ => rfl) plain (by simp)⟩
  | store item | unlock ret =>
      have plain (item : Nat) : call.pc ≠ .queueWork item := by simp [pc]
      simp only [enqueueStep, pc] at stepped
      cases stepped
      exact ⟨pending, line.goto filled found rfl rfl rfl rfl rfl rfl (fun _ _ => rfl) plain (by simp)⟩
  | fill item =>
      have plain (item : Nat) : call.pc ≠ .queueWork item := by simp [pc]
      simp only [enqueueStep, pc] at stepped
      cases stepped
      refine ⟨pending, line.goto filled found rfl rfl rfl rfl rfl rfl (fun other apart => ?_) plain
        (by simp)⟩
      refine if_neg ?_
      rintro rfl
      exact apart (by rw [pc]; rfl)
  | advance entered =>
      have nobody (item : Nat) : ¬state.Queueing item := others (by rw [pc]; rfl) (by simp [pc])
      have line := line.empty nobody ▸ line
      simp only [enqueueStep, pc] at stepped
      cases stepped
      refine ⟨[entered], ?_, Nat.le_refl 1, fun item => ?_, line.printed⟩
      · change state.accepted ++ [entered] =
          state.processed ++ state.worker.item.toList ++ state.workqueue ++ [entered]
        rw [line.line, List.append_nil]
      · change [entered] = [item] ↔ (state.goto self call (.queueWork entered)).Queueing item
        rw [State.queueing_goto found]
        constructor
        · intro same
          exact .inl (congrArg EnqueuePc.queueWork (List.singleton_inj.mp same))
        · rintro (queueing | ⟨index, other, -, present, queueing⟩)
          · rw [EnqueuePc.queueWork.inj queueing]
          · exact absurd ⟨index, other, present, queueing⟩ (nobody item)
  | queueWork queued =>
      have its : pending = [queued] := (line.queueing queued).mpr ⟨self, call, found, pc⟩
      have line := its ▸ line
      simp only [enqueueStep, pc] at stepped
      cases stepped
      refine ⟨[], ?_, Nat.zero_le 1, fun item => ?_, line.printed⟩
      · change state.accepted =
          state.processed ++ state.worker.item.toList ++ (state.workqueue ++ [queued]) ++ []
        rw [line.line, List.append_nil, List.append_assoc]
      · change [] = [item] ↔ (state.goto self call (.unlock 0)).Queueing item
        rw [State.queueing_goto found]
        refine iff_of_false (by simp) ?_
        rintro (queueing | ⟨index, other, apart, present, queueing⟩)
        · simp at queueing
        · exact apart (locked.alone found present (by rw [pc]; rfl) (by rw [queueing]; rfl))
  | returned ret => simp [enqueueStep, pc] at stepped

theorem line_workStep {state next : State} {pending : List Nat} (line : Line state pending)
    (stepped : workStep state = some next) : Line next pending := by
  have accepts := line.line
  have prints := line.printed
  cases worker : state.worker with
  | idle =>
      rw [worker] at accepts prints
      cases workqueue : state.workqueue with
      | nil => simp [workStep, worker, workqueue] at stepped
      | cons first rest =>
          simp only [workStep, worker, workqueue] at stepped
          cases stepped
          refine ⟨?_, line.short, line.queueing, prints⟩
          simpa [WorkerPc.item, workqueue] using accepts
  | print first =>
      rw [worker] at accepts prints
      simp only [workStep, worker] at stepped
      cases stepped
      refine ⟨accepts, line.short, line.queueing, ?_⟩
      simpa [WorkerPc.printedItem] using prints
  | kfree first =>
      rw [worker] at accepts prints
      simp only [workStep, worker] at stepped
      cases stepped
      refine ⟨?_, line.short, line.queueing, ?_⟩
      · simpa [WorkerPc.item] using accepts
      · simpa [WorkerPc.printedItem] using prints

theorem State.queueing_append (state : State) (data : Int32) (item : Nat) :
    State.Queueing { state with calls := state.calls ++ [⟨data, .lock, 0⟩] } item ↔
      state.Queueing item := by
  constructor
  · rintro ⟨self, call, found, queueing⟩
    rcases Numbered.append_cases found with before | ⟨-, rfl⟩
    · exact ⟨self, call, before, queueing⟩
    · simp at queueing
  · rintro ⟨self, call, found, queueing⟩
    exact ⟨self, call, Numbered.append_old found, queueing⟩

structure Ordered (state : State) : Prop where
  shape : Shape state
  filled : Filled state
  line : ∃ pending, Line state pending

theorem ordered_step {state next : State} (action : Action) (ordered : Ordered state)
    (stepped : step state action = some next) : Ordered next := by
  obtain ⟨shape, filled, pending, line⟩ := ordered
  refine ⟨shape_step action shape stepped, filled_step shape.locked filled stepped, ?_⟩
  cases action with
  | enqueue data =>
      simp only [step] at stepped
      split at stepped <;> cases stepped
      refine ⟨pending, line.line, line.short, fun item => ?_, line.printed⟩
      rw [line.queueing item]
      exact (State.queueing_append state data item).symm
  | run self allocates =>
      obtain ⟨call, found, moved⟩ := Option.bind_eq_some_iff.mp stepped
      exact line_enqueueStep shape.locked filled line found moved
  | work => exact ⟨pending, line_workStep line stepped⟩
  | exit =>
      have same (calls : next.calls = state.calls) (accepted : next.accepted = state.accepted)
          (processed : next.processed = state.processed) (worker : next.worker = state.worker)
          (workqueue : next.workqueue = state.workqueue) (printed : next.printed = state.printed)
          (data : next.data = state.data) : Line next pending := by
        refine ⟨?_, line.short, ?_, ?_⟩
        · rw [accepted, processed, worker, workqueue]
          exact line.line
        · simp only [State.Queueing, calls]
          exact line.queueing
        · rw [printed, processed, worker, data]
          exact line.printed
      simp only [step, exitStep] at stepped
      split at stepped
      any_goals split at stepped
      all_goals first
        | cases stepped; exact ⟨pending, same rfl rfl rfl rfl rfl rfl rfl⟩
        | simp at stepped

theorem ordered_initial : Ordered initial := by
  refine ⟨shape_initial, ⟨?_, ?_, ?_, List.Perm.refl _⟩, [], rfl, Nat.zero_le 1, ?_, rfl⟩ <;>
    simp [initial, State.Queueing]

structure Delivers (state : State) : Prop where
  inOrder : state.printed <+: state.acceptedData
  calls : state.acceptedData.Perm state.enteredData
  few : state.acceptedData.length < fifoSize
  flushed : state.exit.drained = true → state.printed = state.acceptedData

theorem Ordered.delivers {state : State} (ordered : Ordered state) : Delivers state := by
  obtain ⟨shape, filled, pending, line⟩ := ordered
  have accepts := line.line
  refine ⟨?_, filled.entered, ?_, fun drained => ?_⟩
  · rw [line.printed, State.acceptedData, accepts]
    refine List.IsPrefix.map _ ?_
    cases worker : state.worker with
    | idle | print item => simp [WorkerPc.printedItem]
    | kfree item => simp [WorkerPc.printedItem, WorkerPc.item]
  · rw [State.acceptedData, List.length_map]
    exact shape.placed.small
  · obtain ⟨idle, empty⟩ := shape.works.drained drained
    have nobody (item : Nat) : ¬state.Queueing item := by
      rintro ⟨self, call, present, pc⟩
      have begun : state.exit ≠ .unloaded := by
        rintro unloaded
        simp [unloaded, ExitPc.drained] at drained
      have returned := shape.locked.quiet begun call (List.mem_of_getElem? present)
      simp [pc, EnqueuePc.isReturned] at returned
    rw [line.printed, State.acceptedData, accepts, idle, empty, line.empty nobody]
    simp [WorkerPc.printedItem, WorkerPc.item]

theorem acceptedData_step {state next : State} (action : Action) (filled : Filled state)
    (stepped : step state action = some next) : state.acceptedData <+: next.acceptedData := by
  have same (accepted : next.accepted = state.accepted) (data : next.data = state.data) :
      state.acceptedData <+: next.acceptedData := by
    have kept : next.acceptedData = state.acceptedData := by
      rw [State.acceptedData, State.acceptedData, accepted, data]
    exact kept ▸ List.prefix_refl _
  cases action with
  | enqueue data =>
      simp only [step] at stepped
      split at stepped <;> cases stepped
      exact same rfl rfl
  | run self allocates =>
      obtain ⟨call, found, moved⟩ := Option.bind_eq_some_iff.mp stepped
      cases pc : call.pc with
      | lock | testFull | kmalloc =>
          simp only [enqueueStep, pc] at moved
          split at moved <;> cases moved <;> exact same rfl rfl
      | store item | queueWork item | unlock ret =>
          simp only [enqueueStep, pc] at moved
          cases moved
          exact same rfl rfl
      | fill item =>
          obtain ⟨-, outside⟩ := filled.fresh self call item found (by rw [pc]; rfl)
          simp only [enqueueStep, pc] at moved
          cases moved
          have kept : state.accepted.map
                (fun other => if other = item then call.data else state.data other) =
              state.acceptedData :=
            List.map_congr_left fun other member => if_neg (ne_of_mem_of_not_mem member outside)
          exact (congrArg (state.acceptedData <+: ·) kept).mpr (List.prefix_refl _)
      | advance item =>
          simp only [enqueueStep, pc] at moved
          cases moved
          exact List.IsPrefix.map _ (List.prefix_append _ _)
      | returned ret => simp [enqueueStep, pc] at moved
  | work =>
      simp only [step, workStep] at stepped
      split at stepped
      · split at stepped <;> cases stepped
        exact same rfl rfl
      all_goals
        cases stepped
        exact same rfl rfl
  | exit =>
      obtain ⟨-, accepted, -⟩ := exitStep_frame stepped
      refine same accepted ?_
      simp only [step, exitStep] at stepped
      split at stepped
      any_goals split at stepped
      all_goals first
        | cases stepped; rfl
        | simp at stepped

theorem acceptedData_grows {state : State} (ordered : Ordered state) (actions : List Action) :
    Always step (fun next => state.acceptedData <+: next.acceptedData) state actions := by
  have kept : Always step (fun next => Ordered next ∧ state.acceptedData <+: next.acceptedData) state
      actions := by
    refine always_invariant (fun now action next before stepped => ?_)
      ⟨ordered, List.prefix_refl _⟩ actions
    exact ⟨ordered_step action before.1 stepped,
      before.2.trans (acceptedData_step action before.1.filled stepped)⟩
  exact kept.imp fun _ both => both.2

/-- The data of the items accepted so far is printed in the order of acceptance, each once, and all
of it before the exit goes on from the flush.  It is what the calls that succeed were given, nine at
most in the life of the module, and later steps only add to it at its end. -/
theorem workFifo_delivers (actions more : List Action) :
    Always step (fun state => Delivers state ∧
      Always step (fun next => state.acceptedData <+: next.acceptedData) state more) initial actions := by
  have ordered : Always step Ordered initial actions :=
    always_invariant (fun _ action _ before stepped => ordered_step action before stepped)
      ordered_initial actions
  exact ordered.imp fun _ now => ⟨now.delivers, acceptedData_grows now more⟩

/-- Two calls at once: the second one waits for the lock and is printed second. -/
example : (run step initial ([.enqueue 7, .run 0 true, .enqueue 8] ++ List.replicate 7 (.run 0 true) ++
    List.replicate 8 (.run 1 true) ++ List.replicate 6 .work)).map State.printed = some [7, 8] := by
  decide

end LearnK.WorkFifo
