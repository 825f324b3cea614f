import LearnK.WorkFifo.Core

/-! What holds in every reachable state: who is under the lock, where the ring's items are and
who still has to deal with them; here what the statements of `enqueue` keep. -/

namespace LearnK.WorkFifo

open StepMachine

def EnqueuePc.critical : EnqueuePc → Bool
  | .lock | .returned _ => false
  | _ => true

def EnqueuePc.hasRoom : EnqueuePc → Bool
  | .kmalloc | .fill _ | .store _ | .advance _ => true
  | _ => false

def ExitPc.critical : ExitPc → Bool
  | .test | .take | .advance _ | .kfree _ | .unlock => true
  | _ => false

def ExitPc.drained : ExitPc → Bool
  | .unloaded | .flush => false
  | _ => true

def ExitPc.looping : ExitPc → Bool
  | .take | .advance _ | .kfree _ => true
  | _ => false

def WorkerPc.item : WorkerPc → Option Nat
  | .idle => none
  | .print item | .kfree item => some item

structure Locked (state : State) : Prop where
  call : ∀ (self : Nat) (call : Call), state.calls[self]? = some call → call.pc.critical = true →
    state.fifoLock = some (.call self)
  exit : state.exit.critical = true → state.fifoLock = some .exit
  quiet : state.exit ≠ .unloaded → ∀ call ∈ state.calls, call.pc.isReturned = true

/-- Until the exit takes items out, the head stays where it was and slot `k` keeps the `k`-th
item that entered. -/
structure Placed (state : State) : Prop where
  head : state.exit.drained = false → state.fifoHead = 0
  tail : state.fifoTail = state.accepted.length
  small : state.accepted.length < fifoSize
  room : ∀ (self : Nat) (call : Call), state.calls[self]? = some call → call.pc.hasRoom = true →
    state.accepted.length + 1 < fifoSize
  slot : ∀ (index item : Nat), state.accepted[index]? = some item → state.fifo index = some item
  stored : ∀ (self : Nat) (call : Call) (item : Nat),
    state.calls[self]? = some call → call.pc = .advance item →
    state.fifo state.fifoTail = some item

def State.Queueing (state : State) (item : Nat) : Prop :=
  ∃ (self : Nat) (call : Call), state.calls[self]? = some call ∧ call.pc = .queueWork item

structure Works (state : State) : Prop where
  known : ∀ item, item ∈ state.accepted ↔ item ∈ state.processed ∨
    state.worker.item = some item ∨ item ∈ state.workqueue ∨ state.Queueing item
  drained : state.exit.drained = true → state.worker = .idle ∧ state.workqueue = []
  untouched : state.exit.drained = true → state.fifoHead = state.fifoTail ∨ state.processed ≠ []
  looping : state.exit.looping = true → state.processed ≠ []

structure Shape (state : State) : Prop where
  locked : Locked state
  placed : Placed state
  works : Works state

theorem State.goto_get {state : State} {self index : Nat} {call other : Call} {pc : EnqueuePc}
    (found : (state.goto self call pc).calls[index]? = some other) :
    index = self ∧ other = { call with pc := pc } ∨
      index ≠ self ∧ state.calls[index]? = some other :=
  Numbered.set_cases found

theorem State.goto_self {state : State} {self : Nat} {before call : Call} {pc : EnqueuePc}
    (found : state.calls[self]? = some before) :
    (state.goto self call pc).calls[self]? = some { call with pc := pc } :=
  Numbered.set_self found

theorem State.goto_other {state : State} {self index : Nat} {call : Call} {pc : EnqueuePc}
    (apart : index ≠ self) : (state.goto self call pc).calls[index]? = state.calls[index]? :=
  List.getElem?_set_ne (Ne.symm apart)

theorem Locked.unloaded {state : State} (locked : Locked state) {self : Nat} {call : Call}
    (found : state.calls[self]? = some call) (active : call.pc.isReturned = false) :
    state.exit = .unloaded := by
  by_contra begun
  have returned := locked.quiet begun call (List.mem_of_getElem? found)
  simp [active] at returned

theorem Locked.alone {state : State} (locked : Locked state) {self other : Nat}
    {call call' : Call} (found : state.calls[self]? = some call)
    (found' : state.calls[other]? = some call') (inside : call.pc.critical = true)
    (inside' : call'.pc.critical = true) : other = self := by
  have mine := locked.call self call found inside
  rw [locked.call other call' found' inside', Option.some.injEq, Holder.call.injEq] at mine
  exact mine

theorem enqueueStep_active {self : Nat} {allocates : Bool} {call : Call} {state next : State}
    (stepped : enqueueStep self allocates call state = some next) : call.pc.isReturned = false := by
  cases pc : call.pc <;> simp [enqueueStep, pc] at stepped ⊢ <;> rfl

theorem enqueueStep_lock {self : Nat} {allocates : Bool} {call : Call} {state next : State}
    (stepped : enqueueStep self allocates call state = some next) :
    next.exit = state.exit ∧ (∃ (called : Call) (pc : EnqueuePc),
      next.calls = (state.goto self called pc).calls ∧
      (call.pc = .lock ∧ state.fifoLock = none ∧ next.fifoLock = some (.call self) ∨
        call.pc.critical = true ∧ pc.critical = true ∧ next.fifoLock = state.fifoLock ∨
        call.pc.critical = true ∧ pc.critical = false ∧ next.fifoLock = none)) := by
  cases pc : call.pc with
  | lock =>
      simp only [enqueueStep, pc] at stepped
      split at stepped
      · rename_i free
        cases stepped
        exact ⟨rfl, call, .testFull, rfl, .inl ⟨rfl, free, rfl⟩⟩
      · simp at stepped
  | testFull =>
      simp only [enqueueStep, pc] at stepped
      split at stepped <;> cases stepped
      · exact ⟨rfl, _, .unlock (-1), rfl, .inr (.inl ⟨rfl, rfl, rfl⟩)⟩
      · exact ⟨rfl, _, .kmalloc, rfl, .inr (.inl ⟨rfl, rfl, rfl⟩)⟩
  | kmalloc =>
      simp only [enqueueStep, pc] at stepped
      split at stepped <;> cases stepped
      · exact ⟨rfl, _, .fill state.allocated, rfl, .inr (.inl ⟨rfl, rfl, rfl⟩)⟩
      · exact ⟨rfl, _, .unlock (-1), rfl, .inr (.inl ⟨rfl, rfl, rfl⟩)⟩
  | fill item | store item | advance item | queueWork item =>
      simp only [enqueueStep, pc] at stepped
      cases stepped
      exact ⟨rfl, _, _, rfl, .inr (.inl ⟨rfl, rfl, rfl⟩)⟩
  | unlock ret =>
      simp only [enqueueStep, pc] at stepped
      cases stepped
      exact ⟨rfl, _, .returned ret, rfl, .inr (.inr ⟨rfl, rfl, rfl⟩)⟩
  | returned ret => simp [enqueueStep, pc] at stepped

theorem locked_enqueueStep {self : Nat} {allocates : Bool} {call : Call} {state next : State}
    (locked : Locked state) (found : state.calls[self]? = some call)
    (stepped : enqueueStep self allocates call state = some next) : Locked next := by
  have unloaded := locked.unloaded found (enqueueStep_active stepped)
  obtain ⟨exit, called, pc, calls, moved⟩ := enqueueStep_lock stepped
  rw [unloaded] at exit
  refine ⟨fun index other present inside => ?_, ?_, fun begun => absurd exit begun⟩
  · rw [calls] at present
    rcases moved with ⟨-, free, taken⟩ | ⟨held, -, kept⟩ | ⟨held, out, -⟩
    · rcases State.goto_get present with ⟨rfl, rfl⟩ | ⟨-, before⟩
      · exact taken
      · have holds := locked.call index other before inside
        simp [free] at holds
    · rcases State.goto_get present with ⟨rfl, rfl⟩ | ⟨-, before⟩
      · exact kept.trans (locked.call _ _ found held)
      · exact kept.trans (locked.call _ _ before inside)
    · rcases State.goto_get present with ⟨rfl, rfl⟩ | ⟨apart, before⟩
      · simp [out] at inside
      · exact absurd (locked.alone found before held inside) apart
  · intro critical
    simp [exit, ExitPc.critical] at critical

theorem EnqueuePc.critical_of_hasRoom {pc : EnqueuePc} (room : pc.hasRoom = true) :
    pc.critical = true := by
  cases pc <;> first | rfl | simp [EnqueuePc.hasRoom] at room

theorem Placed.goto {state next : State} {self : Nat} {called : Call} {pc : EnqueuePc}
    (placed : Placed state) (calls : next.calls = (state.goto self called pc).calls)
    (exit : next.exit = state.exit) (fifo : next.fifo = state.fifo)
    (head : next.fifoHead = state.fifoHead) (tail : next.fifoTail = state.fifoTail)
    (accepted : next.accepted = state.accepted)
    (room : pc.hasRoom = true → state.accepted.length + 1 < fifoSize)
    (stored : ∀ item, pc = .advance item → state.fifo state.fifoTail = some item) :
    Placed next := by
  refine ⟨?_, ?_, ?_, ?_, ?_, ?_⟩
  · rw [exit, head]
    exact placed.head
  · rw [tail, accepted]
    exact placed.tail
  · rw [accepted]
    exact placed.small
  · rw [calls, accepted]
    intro index other present inside
    rcases State.goto_get present with ⟨rfl, rfl⟩ | ⟨-, before⟩
    · exact room inside
    · exact placed.room index other before inside
  · rw [accepted, fifo]
    exact placed.slot
  · rw [calls, fifo, tail]
    intro index other item present at_advance
    rcases State.goto_get present with ⟨rfl, rfl⟩ | ⟨-, before⟩
    · exact stored item at_advance
    · exact placed.stored index other item before at_advance

theorem Locked.noRoom {state : State} (locked : Locked state) {self index : Nat} {call other : Call}
    (found : state.calls[self]? = some call) (inside : call.pc.critical = true)
    (apart : index ≠ self) (before : state.calls[index]? = some other) :
    other.pc.hasRoom = false := by
  by_contra room
  have critical := EnqueuePc.critical_of_hasRoom (by simpa using room)
  exact apart (locked.alone found before inside critical)

theorem placed_store {state : State} {self item : Nat} {call : Call} (locked : Locked state)
    (placed : Placed state) (found : state.calls[self]? = some call) (pc : call.pc = .store item) :
    Placed { state.goto self call (.advance item) with
      fifo := fun slot => if slot = state.fifoTail then some item else state.fifo slot } := by
  have room := placed.room self call found (by rw [pc]; rfl)
  refine ⟨placed.head, placed.tail, placed.small, ?_, ?_, ?_⟩
  · intro index other present inside
    rcases State.goto_get present with ⟨rfl, rfl⟩ | ⟨-, before⟩
    · exact room
    · exact placed.room index other before inside
  · intro index other held
    have below : index < state.accepted.length := (List.getElem?_eq_some_iff.mp held).1
    have apart : index ≠ state.fifoTail := by
      rw [placed.tail]
      omega
    exact (if_neg apart).trans (placed.slot index other held)
  · intro index other held present atAdvance
    rcases State.goto_get present with ⟨rfl, rfl⟩ | ⟨apart, before⟩
    · obtain rfl := EnqueuePc.advance.inj atAdvance
      exact if_pos rfl
    · have idle := locked.noRoom found (by rw [pc]; rfl) apart before
      simp [atAdvance, EnqueuePc.hasRoom] at idle

theorem placed_advance {state : State} {self item : Nat} {call : Call} (locked : Locked state)
    (placed : Placed state) (found : state.calls[self]? = some call) (pc : call.pc = .advance item) :
    Placed { state.goto self call (.queueWork item) with
      fifoTail := (state.fifoTail + 1) % fifoSize
      accepted := state.accepted ++ [item] } := by
  have room := placed.room self call found (by rw [pc]; rfl)
  have stored := placed.stored self call item found pc
  have noRoom (index : Nat) (other : Call)
      (present : (state.goto self call (.queueWork item)).calls[index]? = some other) :
      other.pc.hasRoom = false := by
    rcases State.goto_get present with ⟨rfl, rfl⟩ | ⟨apart, before⟩
    · rfl
    · exact locked.noRoom found (by rw [pc]; rfl) apart before
  refine ⟨placed.head, ?_, ?_, ?_, ?_, ?_⟩
  · simp only [List.length_append, List.length_singleton, placed.tail]
    exact Nat.mod_eq_of_lt room
  · simpa using room
  · intro index other present inside
    have idle := noRoom index other present
    simp [inside] at idle
  · intro index other held
    rcases Nat.lt_or_ge index state.accepted.length with below | beyond
    · rw [List.getElem?_append_left below] at held
      exact placed.slot index other held
    · rw [List.getElem?_append_right beyond] at held
      have last : index = state.fifoTail := by
        have bound := (List.getElem?_eq_some_iff.mp held).1
        simp only [List.length_singleton] at bound
        rw [placed.tail]
        omega
      rw [last, placed.tail, Nat.sub_self] at held
      obtain rfl := Option.some.inj held
      rw [last]
      exact stored
  · intro index other held present atAdvance
    have idle := noRoom index other present
    simp [atAdvance, EnqueuePc.hasRoom] at idle

theorem placed_enqueueStep {self : Nat} {allocates : Bool} {call : Call} {state next : State}
    (locked : Locked state) (placed : Placed state) (found : state.calls[self]? = some call)
    (stepped : enqueueStep self allocates call state = some next) : Placed next := by
  have unloaded := locked.unloaded found (enqueueStep_active stepped)
  cases pc : call.pc with
  | lock =>
      simp only [enqueueStep, pc] at stepped
      split at stepped <;> cases stepped
      exact placed.goto rfl rfl rfl rfl rfl rfl (by simp [EnqueuePc.hasRoom]) (by simp)
  | testFull =>
      simp only [enqueueStep, pc] at stepped
      split at stepped <;> cases stepped
      · exact placed.goto rfl rfl rfl rfl rfl rfl (by simp [EnqueuePc.hasRoom]) (by simp)
      · rename_i notFull
        refine placed.goto rfl rfl rfl rfl rfl rfl (fun _ => ?_) (by simp)
        have small := placed.small
        have headZero := placed.head (by rw [unloaded]; rfl)
        rw [headZero, placed.tail] at notFull
        unfold fifoSize at *
        omega
  | kmalloc =>
      have room := placed.room self call found (by rw [pc]; rfl)
      simp only [enqueueStep, pc] at stepped
      split at stepped <;> cases stepped
      · exact placed.goto rfl rfl rfl rfl rfl rfl (fun _ => room) (by simp)
      · exact placed.goto rfl rfl rfl rfl rfl rfl (by simp [EnqueuePc.hasRoom]) (by simp)
  | fill item =>
      have room := placed.room self call found (by rw [pc]; rfl)
      simp only [enqueueStep, pc] at stepped
      cases stepped
      exact placed.goto rfl rfl rfl rfl rfl rfl (fun _ => room) (by simp)
  | store item =>
      simp only [enqueueStep, pc] at stepped
      cases stepped
      exact placed_store locked placed found pc
  | advance item =>
      simp only [enqueueStep, pc] at stepped
      cases stepped
      exact placed_advance locked placed found pc
  | queueWork item =>
      simp only [enqueueStep, pc] at stepped
      cases stepped
      exact placed.goto rfl rfl rfl rfl rfl rfl (by simp [EnqueuePc.hasRoom]) (by simp)
  | unlock ret =>
      simp only [enqueueStep, pc] at stepped
      cases stepped
      exact placed.goto rfl rfl rfl rfl rfl rfl (by simp [EnqueuePc.hasRoom]) (by simp)
  | returned ret => simp [enqueueStep, pc] at stepped

theorem State.queueing_goto {state : State} {self : Nat} {before call : Call} {pc : EnqueuePc}
    {item : Nat} (found : state.calls[self]? = some before) :
    (state.goto self call pc).Queueing item ↔ pc = .queueWork item ∨
      ∃ (index : Nat) (other : Call), index ≠ self ∧ state.calls[index]? = some other ∧
        other.pc = .queueWork item := by
  constructor
  · rintro ⟨index, other, present, queueing⟩
    rcases State.goto_get present with ⟨rfl, rfl⟩ | ⟨apart, kept⟩
    · exact .inl queueing
    · exact .inr ⟨index, other, apart, kept, queueing⟩
  · rintro (queueing | ⟨index, other, apart, kept, queueing⟩)
    · exact ⟨self, _, State.goto_self found, queueing⟩
    · exact ⟨index, other, (State.goto_other apart).trans kept, queueing⟩

theorem State.queueing_goto_plain {state : State} {self : Nat} {before call : Call}
    {pc : EnqueuePc} {item : Nat} (found : state.calls[self]? = some before)
    (was : before.pc ≠ .queueWork item) (now : pc ≠ .queueWork item) :
    (state.goto self call pc).Queueing item ↔ state.Queueing item := by
  rw [State.queueing_goto found]
  constructor
  · rintro (queueing | ⟨index, other, -, kept, queueing⟩)
    · exact absurd queueing now
    · exact ⟨index, other, kept, queueing⟩
  · rintro ⟨index, other, kept, queueing⟩
    refine .inr ⟨index, other, ?_, kept, queueing⟩
    rintro rfl
    obtain rfl := Option.some.inj (found.symm.trans kept)
    exact was queueing

theorem ExitPc.drained_of_looping {pc : ExitPc} (looping : pc.looping = true) :
    pc.drained = true := by
  cases pc <;> first | rfl | simp [ExitPc.looping] at looping

theorem Works.ofUndrained {state : State} (undrained : state.exit.drained = false)
    (known : ∀ item, item ∈ state.accepted ↔ item ∈ state.processed ∨
      state.worker.item = some item ∨ item ∈ state.workqueue ∨ state.Queueing item) :
    Works state := by
  refine ⟨known, fun drained => ?_, fun drained => ?_, fun looping => ?_⟩
  · simp [undrained] at drained
  · simp [undrained] at drained
  · simp [ExitPc.drained_of_looping looping] at undrained

theorem Works.goto {state next : State} {self : Nat} {before called : Call} {pc : EnqueuePc}
    (works : Works state) (found : state.calls[self]? = some before)
    (calls : next.calls = (state.goto self called pc).calls) (unloaded : next.exit = .unloaded)
    (accepted : next.accepted = state.accepted) (processed : next.processed = state.processed)
    (worker : next.worker = state.worker) (workqueue : next.workqueue = state.workqueue)
    (was : ∀ item, before.pc ≠ .queueWork item) (now : ∀ item, pc ≠ .queueWork item) :
    Works next := by
  refine Works.ofUndrained (by rw [unloaded]; rfl) fun item => ?_
  have same : next.Queueing item ↔ state.Queueing item := by
    have moved : (state.goto self called pc).Queueing item ↔ state.Queueing item :=
      State.queueing_goto_plain found (was item) (now item)
    rw [← moved, State.Queueing, calls]
    rfl
  rw [accepted, processed, worker, workqueue, same]
  exact works.known item

theorem works_enqueueStep {self : Nat} {allocates : Bool} {call : Call} {state next : State}
    (locked : Locked state) (works : Works state) (found : state.calls[self]? = some call)
    (stepped : enqueueStep self allocates call state = some next) : Works next := by
  have unloaded := locked.unloaded found (enqueueStep_active stepped)
  cases pc : call.pc with
  | lock | testFull | kmalloc =>
      have plain (item : Nat) : call.pc ≠ .queueWork item := by simp [pc]
      simp only [enqueueStep, pc] at stepped
      split at stepped <;> cases stepped <;>
        exact works.goto found rfl unloaded rfl rfl rfl rfl plain (by simp)
  | fill item | store item | unlock ret =>
      have plain (item : Nat) : call.pc ≠ .queueWork item := by simp [pc]
      simp only [enqueueStep, pc] at stepped
      cases stepped
      exact works.goto found rfl unloaded rfl rfl rfl rfl plain (by simp)
  | advance entered =>
      simp only [enqueueStep, pc] at stepped
      cases stepped
      refine Works.ofUndrained (congrArg ExitPc.drained unloaded) fun item => ?_
      have queueing : (state.goto self call (.queueWork entered)).Queueing item ↔
          item = entered ∨ state.Queueing item := by
        by_cases same : item = entered
        · subst item
          exact iff_of_true ((State.queueing_goto found).mpr (.inl rfl)) (.inl rfl)
        · have apart : EnqueuePc.queueWork entered ≠ .queueWork item := by
            simpa using Ne.symm same
          rw [State.queueing_goto_plain found (by simp [pc]) apart]
          simp [same]
      have known := works.known item
      change item ∈ state.accepted ++ [entered] ↔ item ∈ state.processed ∨
        state.worker.item = some item ∨ item ∈ state.workqueue ∨
          (state.goto self call (.queueWork entered)).Queueing item
      rw [queueing, List.mem_append, List.mem_singleton, known]
      grind
  | queueWork queued =>
      simp only [enqueueStep, pc] at stepped
      cases stepped
      refine Works.ofUndrained (congrArg ExitPc.drained unloaded) fun item => ?_
      have before : state.Queueing item ↔ item = queued := by
        constructor
        · rintro ⟨index, other, present, queueing⟩
          have alone := locked.alone found present (by rw [pc]; rfl) (by rw [queueing]; rfl)
          subst index
          obtain rfl := Option.some.inj (found.symm.trans present)
          exact (EnqueuePc.queueWork.inj (pc.symm.trans queueing)).symm
        · rintro rfl
          exact ⟨self, call, found, pc⟩
      have after : ¬(state.goto self call (.unlock 0)).Queueing item := by
        rw [State.queueing_goto found]
        rintro (queueing | ⟨index, other, apart, present, queueing⟩)
        · simp at queueing
        · exact apart (locked.alone found present (by rw [pc]; rfl) (by rw [queueing]; rfl))
      have known := works.known item
      change item ∈ state.accepted ↔ item ∈ state.processed ∨ state.worker.item = some item ∨
        item ∈ state.workqueue ++ [queued] ∨ (state.goto self call (.unlock 0)).Queueing item
      rw [known, before, List.mem_append, List.mem_singleton]
      grind
  | returned ret => simp [enqueueStep, pc] at stepped

end LearnK.WorkFifo
