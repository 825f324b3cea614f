import LearnK.GlobalFifo.Wakeup

/-! Wait entries: every `add_wait_queue` against the `remove_wait_queue` of the same call.
`hello_read` joins `r_wait` and takes itself off `w_wait`. -/

namespace LearnK.GlobalFifo

open StepMachine

/-- A task's log read as adding, removing from the same queue and returning, in turn; the state
is the entry the task has on a queue. -/
def pairStep (task : Nat) (entry : Option WaitQueue) : Event → Option (Option WaitQueue)
  | .waitAdded id queue =>
      if id = task then if entry = none then some (some queue) else none else some entry
  | .waitRemoved id queue =>
      if id = task then if entry = some queue then some none else none else some entry
  | .returned id _ =>
      if id = task then if entry = none then some none else none else some entry
  | _ => some entry

def Paired (events : List Event) : Prop :=
  ∀ task, (run (pairStep task) none events).isSome = true

def QueuesPaired (state : State) : Prop :=
  Paired state.events ∧
    ((∀ id, (state.tasks id).activity = .idle) → state.dev.rWait = [] ∧ state.dev.wWait = [])

def Activity.misremoving : Activity → Bool
  | .transfer .read _ (.out2 _) => true
  | _ => false

def Misremoves (state : State) : Action → Prop
  | .run self _ => (state.tasks self).activity.misremoving = true
  | _ => False

instance (state : State) : ∀ action, Decidable (Misremoves state action)
  | .run self _ => inferInstanceAs (Decidable ((state.tasks self).activity.misremoving = true))
  | .enter _ _ => isFalse id
  | .signal _ => isFalse id

def Task.entry (task : Task) : Option WaitQueue :=
  match task.activity with
  | .transfer kind _ pc => if pc.queued then some kind.ops.joins else none
  | _ => none

structure EntryStep (mover : Nat) (dev : HelloDev) (task : Task) (effect : Effect) : Prop where
  member : ∀ queue id, id ∈ effect.dev.queue queue ↔
    if id = mover then effect.task.entry = some queue else id ∈ dev.queue queue
  nodup : ∀ queue, (effect.dev.queue queue).Nodup
  others : ∀ id, id ≠ mover → ∀ entry, run (pairStep id) entry effect.events = some entry
  own : run (pairStep mover) task.entry effect.events =
    if task.activity.misremoving then none else some effect.task.entry

structure Queued (dev : HelloDev) (mover : Nat) (task : Task) : Prop where
  member : ∀ queue, mover ∈ dev.queue queue ↔ task.entry = some queue
  nodup : ∀ queue, (dev.queue queue).Nodup

def Event.unpaired : Event → Bool
  | .waitAdded _ _ | .waitRemoved _ _ | .returned _ _ => false
  | .access _ _ | .accepted _ | .delivered _ | .cleared => true

theorem run_unpaired {events : List Event} (unpaired : ∀ event ∈ events, event.unpaired = true)
    (task : Nat) (entry : Option WaitQueue) : run (pairStep task) entry events = some entry := by
  induction events with
  | nil => rfl
  | cons event rest ih =>
      have here : pairStep task entry event = some entry := by
        have first := unpaired event (by simp)
        cases event with
        | waitAdded | waitRemoved | returned => simp [Event.unpaired] at first
        | access | accepted | delivered | cleared => rfl
      rw [run_cons, here]
      exact ih fun other member => unpaired other (by simp [member])

theorem entryStep_same {self : Nat} {dev : HelloDev} {task : Task} {effect : Effect}
    (queued : Queued dev self task) (queues : ∀ queue, effect.dev.queue queue = dev.queue queue)
    (entry : effect.task.entry = task.entry) (fits : task.activity.misremoving = false)
    (others : ∀ id, id ≠ self → ∀ entry, run (pairStep id) entry effect.events = some entry)
    (own : run (pairStep self) task.entry effect.events = some task.entry) :
    EntryStep self dev task effect where
  member queue id := by
    rw [queues, entry]
    split
    · rename_i same
      rw [same]
      exact queued.member queue
    · rfl
  nodup queue := by
    rw [queues]
    exact queued.nodup queue
  others := others
  own := by
    rw [fits, entry]
    exact own

theorem entryStep_unpaired {self : Nat} {dev : HelloDev} {task : Task} {effect : Effect}
    (queued : Queued dev self task) (queues : ∀ queue, effect.dev.queue queue = dev.queue queue)
    (entry : effect.task.entry = task.entry) (fits : task.activity.misremoving = false)
    (unpaired : ∀ event ∈ effect.events, event.unpaired = true) :
    EntryStep self dev task effect :=
  entryStep_same queued queues entry fits (fun id _ entry => run_unpaired unpaired id entry)
    (run_unpaired unpaired self task.entry)

theorem entryStep_returned {self : Nat} {dev : HelloDev} {task : Task} {effect : Effect} {ret : Int}
    (queued : Queued dev self task) (queues : ∀ queue, effect.dev.queue queue = dev.queue queue)
    (entry : effect.task.entry = task.entry) (fits : task.activity.misremoving = false)
    (without : task.entry = none) (events : effect.events = [.returned self ret]) :
    EntryStep self dev task effect := by
  refine entryStep_same queued queues entry fits ?_ ?_
  · intro id different entry
    rw [events]
    simp [run_cons, pairStep, Ne.symm different]
  · rw [events, without]
    simp [run_cons, pairStep]

@[simp] theorem Task.goto_entry (task : Task) (kind : Kind) (call : Call) (pc : Pc) :
    (task.goto kind call pc).entry = if pc.queued then some kind.ops.joins else none := rfl

@[simp] theorem Task.finish_entry (task : Task) : task.finish.entry = none := rfl

theorem Task.entry_transfer {task : Task} {kind : Kind} {call : Call} {pc : Pc}
    (activity : task.activity = .transfer kind call pc) :
    task.entry = if pc.queued then some kind.ops.joins else none := by
  rw [Task.entry, activity]

theorem Kind.copy_unpaired (kind : Kind) (dev : HelloDev) (call : Call) (count copied : Nat) :
    ∀ event ∈ (kind.ops.copy dev call count copied).2, event.unpaired = true := by
  cases kind <;> simp [Kind.ops, helloRead, helloWrite, Event.unpaired]

theorem Kind.update_unpaired (kind : Kind) (dev : HelloDev) (count : Nat)
    (data : List UInt8) : ∀ event ∈ (kind.ops.update dev count data).2, event.unpaired = true := by
  cases kind <;> simp [Kind.ops, helloRead, helloWrite, Event.unpaired]

theorem addWaitQueue_cons (dev : HelloDev) (self : Nat) (joined queue : WaitQueue) :
    (addWaitQueue dev self joined).queue queue =
      if joined = queue then self :: dev.queue queue else dev.queue queue := by
  cases joined <;> cases queue <;> rfl

theorem entryStep_addWait {kind : Kind} {call : Call} {self : Nat} {dev : HelloDev} {task : Task}
    (activity : task.activity = .transfer kind call .addWait) (queued : Queued dev self task) :
    EntryStep self dev task ⟨addWaitQueue dev self kind.ops.joins, task.goto kind call .test,
      [.waitAdded self kind.ops.joins], none⟩ := by
  have without : task.entry = none := Task.entry_transfer activity
  have absent (queue : WaitQueue) : self ∉ dev.queue queue := by
    rw [queued.member, without]
    simp
  constructor
  · intro queue id
    rw [addWaitQueue_queue]
    by_cases same : id = self
    · simp [same, absent queue, Pc.queued]
    · simp [same]
  · intro queue
    rw [addWaitQueue_cons]
    split
    · exact List.nodup_cons.mpr ⟨absent queue, queued.nodup queue⟩
    · exact queued.nodup queue
  · intro id different entry
    simp [run_cons, pairStep, Ne.symm different]
  · simp [run_cons, pairStep, without, activity, Activity.misremoving, Pc.queued]

theorem entryStep_out2 {kind : Kind} {call : Call} {self : Nat} {dev : HelloDev} {task : Task}
    {ret : Int} (activity : task.activity = .transfer kind call (.out2 ret))
    (queued : Queued dev self task) :
    EntryStep self dev task ⟨removeWaitQueue dev self, task.goto kind call (.leave ret),
      [.waitRemoved self kind.ops.removes], none⟩ := by
  have entry : task.entry = some kind.ops.joins := Task.entry_transfer activity
  have erased (queue : WaitQueue) :
      (removeWaitQueue dev self).queue queue = (dev.queue queue).erase self := by
    cases queue <;> rfl
  constructor
  · intro queue id
    rw [erased, (queued.nodup queue).mem_erase_iff]
    by_cases same : id = self
    · simp [same, Pc.queued]
    · simp [same]
  · intro queue
    rw [erased]
    exact (queued.nodup queue).erase self
  · intro id different entry
    simp [run_cons, pairStep, Ne.symm different]
  · rw [run_cons, entry, activity]
    cases kind <;>
      simp [pairStep, Activity.misremoving, Pc.queued, Kind.ops, helloRead, helloWrite]

theorem transferStep_entry {kind : Kind} {call : Call} {self copied : Nat} {dev : HelloDev}
    {task : Task} {pc : Pc} {effect : Effect} (activity : task.activity = .transfer kind call pc)
    (queued : Queued dev self task)
    (stepped : transferStep kind call self copied dev task pc = some effect) :
    EntryStep self dev task effect := by
  have entry := Task.entry_transfer activity
  have fits (other : ∀ ret, pc ≠ .out2 ret) : task.activity.misremoving = false := by
    rw [activity]
    cases pc <;> simp [Activity.misremoving] at other ⊢
  cases pc with
  | lock | relock =>
      obtain ⟨locked, taken, rfl⟩ := Option.map_eq_some_iff.mp stepped
      obtain ⟨-, rfl⟩ := mutexLock_some taken
      exact entryStep_unpaired queued (fun queue => by cases queue <;> rfl) (by rw [entry]; rfl)
        (fits (by simp)) (by simp)
  | addWait =>
      cases stepped
      exact entryStep_addWait activity queued
  | setState | unlockLoop | wake | out =>
      cases stepped
      exact entryStep_unpaired queued (fun queue => by cases queue <;> rfl) (by rw [entry]; rfl)
        (fits (by simp)) (by simp)
  | test | schedule | signal =>
      simp only [transferStep] at stepped
      split_ifs at stepped <;> cases stepped <;>
        exact entryStep_unpaired queued (fun queue => by cases queue <;> rfl) (by rw [entry]; rfl)
          (fits (by simp)) (by simp)
  | copy =>
      simp only [transferStep] at stepped
      split_ifs at stepped <;> cases stepped <;>
        exact entryStep_unpaired queued (fun queue => by simp) (by rw [entry]; rfl) (fits (by simp))
          (kind.copy_unpaired _ _ _ _)
  | update count data =>
      cases stepped
      exact entryStep_unpaired queued (fun queue => by simp) (by rw [entry]; rfl) (fits (by simp))
        (kind.update_unpaired _ _ _)
  | out2 ret =>
      cases stepped
      exact entryStep_out2 activity queued
  | leave ret =>
      cases stepped
      exact entryStep_returned queued (fun queue => by cases queue <;> rfl) (by rw [entry]; rfl)
        (fits (by simp)) entry rfl

theorem taskStep_entry {self copied : Nat} {dev : HelloDev} {task : Task} {effect : Effect}
    (queued : Queued dev self task) (stepped : taskStep self copied dev task = some effect) :
    EntryStep self dev task effect := by
  unfold taskStep at stepped
  cases activity : task.activity with
  | idle => simp [activity] at stepped
  | transfer kind call pc =>
      rw [activity] at stepped
      exact transferStep_entry activity queued stepped
  | ioctl pc =>
      have without : task.entry = none := by rw [Task.entry, activity]
      have fits : task.activity.misremoving = false := by rw [activity]; rfl
      rw [activity] at stepped
      cases pc with
      | lock =>
          obtain ⟨locked, taken, rfl⟩ := Option.map_eq_some_iff.mp stepped
          obtain ⟨-, rfl⟩ := mutexLock_some taken
          exact entryStep_unpaired queued (fun queue => by cases queue <;> rfl) without.symm fits
            (by simp)
      | clear =>
          cases stepped
          exact entryStep_unpaired queued (fun queue => by cases queue <;> rfl) without.symm fits
            (by simp [Event.unpaired])
      | unlock =>
          cases stepped
          exact entryStep_unpaired queued (fun queue => by cases queue <;> rfl) without.symm fits
            (by simp)
      | leave =>
          cases stepped
          exact entryStep_returned queued (fun queue => by cases queue <;> rfl) without.symm fits
            without rfl
  | poll pc =>
      have without : task.entry = none := by rw [Task.entry, activity]
      have fits : task.activity.misremoving = false := by rw [activity]; rfl
      rw [activity] at stepped
      cases pc with
      | lock | relock =>
          obtain ⟨locked, taken, rfl⟩ := Option.map_eq_some_iff.mp stepped
          obtain ⟨-, rfl⟩ := mutexLock_some taken
          exact entryStep_unpaired queued (fun queue => by cases queue <;> rfl) without.symm fits
            (by simp)
      | mask =>
          cases stepped
          exact entryStep_unpaired queued (fun queue => by cases queue <;> rfl) without.symm fits
            (by simp)
      | leave =>
          cases stepped
          exact entryStep_returned queued (fun queue => by cases queue <;> rfl) without.symm fits
            without rfl

/-- The queues hold one entry for each call between its `add_wait_queue` and its
`remove_wait_queue`, and a log that has been paired so far ends with the entries there are. -/
structure Entries (state : State) : Prop where
  queued : ∀ id, Queued state.dev id (state.tasks id)
  logged : ∀ id entry, run (pairStep id) none state.events = some entry →
    entry = (state.tasks id).entry

theorem entries_initial : Entries initial where
  queued id := by
    refine ⟨fun queue => ?_, fun queue => ?_⟩
    · cases queue <;> simp [initial, HelloDev.zeroed, HelloDev.queue, Task.entry, Task.fresh]
    · cases queue <;> simp [initial, HelloDev.zeroed, HelloDev.queue]
  logged id entry ran := by
    obtain rfl : none = entry := Option.some.inj ran
    rfl

theorem Queued.congr {dev : HelloDev} {id : Nat} {task other : Task} (queued : Queued dev id task)
    (same : other.entry = task.entry) : Queued dev id other :=
  ⟨fun queue => by rw [queued.member, same], queued.nodup⟩

theorem entries_setTask {state : State} {self : Nat} {task : Task} (entries : Entries state)
    (same : task.entry = (state.tasks self).entry) : Entries (state.setTask self task) where
  queued id := by
    rw [State.setTask_tasks]
    split
    · rename_i here
      exact (entries.queued id).congr (by rw [same, here])
    · exact entries.queued id
  logged id entry ran := by
    rw [State.setTask_tasks]
    split
    · rename_i here
      rw [same, ← here]
      exact entries.logged id entry ran
    · exact entries.logged id entry ran

@[simp] theorem wakeUp_entry (dev : HelloDev) (wakes : Option WaitQueue) (id : Nat) (task : Task) :
    (wakeUp dev wakes id task).entry = task.entry := by
  simp [Task.entry]

theorem entries_run {state : State} {self copied : Nat} {effect : Effect} (entries : Entries state)
    (ran : taskStep self copied state.dev (state.tasks self) = some effect) :
    Entries (state.apply self effect) := by
  have moved := taskStep_entry (entries.queued self) ran
  constructor
  · intro id
    refine ⟨fun queue => ?_, moved.nodup⟩
    rw [State.apply, moved.member]
    by_cases same : id = self
    · simp [same]
    · simpa [same] using (entries.queued id).member queue
  · intro id entry paired
    simp only [State.apply] at paired
    rw [run_append] at paired
    obtain ⟨before, earlier, later⟩ := Option.bind_eq_some_iff.mp paired
    obtain rfl := entries.logged id before earlier
    by_cases same : id = self
    · subst same
      rw [State.apply_self]
      rw [moved.own] at later
      split at later
      · simp at later
      · exact (Option.some.inj later).symm
    · rw [moved.others id same] at later
      rw [State.apply_other state effect same, wakeUp_entry]
      exact (Option.some.inj later).symm

theorem entries_step {state next : State} {action : Action} (entries : Entries state)
    (stepped : step state action = some next) : Entries next := by
  obtain ⟨self, operation, -, idle, rfl⟩ | ⟨self, -, rfl⟩ | ⟨self, copied, effect, -, ran, rfl⟩ :=
    step_cases stepped
  · refine entries_setTask entries ?_
    rw [Task.entry, Task.entry, idle]
    cases operation with
    | read | write | poll => rfl
    | ioctl cmd => rfl
  · exact entries_setTask entries rfl
  · exact entries_run entries ran

theorem Entries.idle_empty {state : State} (entries : Entries state)
    (idle : ∀ id, (state.tasks id).activity = .idle) :
    state.dev.rWait = [] ∧ state.dev.wWait = [] := by
  have absent (queue : WaitQueue) (id : Nat) : id ∉ state.dev.queue queue := by
    rw [(entries.queued id).member, Task.entry, idle id]
    simp
  exact ⟨List.eq_nil_iff_forall_not_mem.mpr (absent .rWait),
    List.eq_nil_iff_forall_not_mem.mpr (absent .wWait)⟩

theorem Entries.paired_apply {state : State} {self copied : Nat} {effect : Effect}
    (entries : Entries state) (paired : Paired state.events)
    (ran : taskStep self copied state.dev (state.tasks self) = some effect) :
    Paired (state.apply self effect).events ↔ ¬(state.tasks self).activity.misremoving = true := by
  have moved := taskStep_entry (entries.queued self) ran
  have after (id : Nat) : run (pairStep id) none (state.apply self effect).events =
      run (pairStep id) (state.tasks id).entry effect.events := by
    obtain ⟨entry, before⟩ := Option.isSome_iff_exists.mp (paired id)
    obtain rfl := entries.logged id entry before
    simp only [State.apply]
    rw [run_append, before]
    rfl
  constructor
  · intro later misremoves
    have own := later self
    rw [after, moved.own, if_pos misremoves] at own
    simp at own
  · intro fits id
    rw [after]
    by_cases same : id = self
    · subst same
      rw [moved.own, if_neg fits]
      rfl
    · rw [moved.others id same]
      rfl

theorem queuesPaired_step_iff {state next : State} {action : Action} (entries : Entries state)
    (paired : QueuesPaired state) (stepped : step state action = some next) :
    QueuesPaired next ↔ ¬Misremoves state action := by
  have empty := (entries_step entries stepped).idle_empty
  rw [QueuesPaired, and_iff_left empty]
  obtain ⟨self, operation, rfl, -, rfl⟩ | ⟨self, rfl, rfl⟩ | ⟨self, copied, effect, rfl, ran, rfl⟩ :=
    step_cases stepped
  · exact iff_of_true paired.1 id
  · exact iff_of_true paired.1 id
  · exact entries.paired_apply paired.1 ran

/-- Every run keeps its wait entries paired exactly as long as no `hello_read` call takes its
entry off a queue. -/
theorem helloDev_paired_iff (actions : List Action) :
    Always step QueuesPaired initial actions ↔
      EachStep step (fun state action => ¬Misremoves state action) initial actions := by
  refine always_iff_eachStep ?_
    (always_invariant (fun _ _ _ entries stepped => entries_step entries stepped) entries_initial
      actions) ?_
  · intro state action next paired entries stepped _
    exact queuesPaired_step_iff entries paired stepped
  · exact ⟨fun _ => rfl, fun _ => ⟨rfl, rfl⟩⟩

theorem helloRead_removes_from_other_queue : ∃ state,
    run step initial (.enter 0 (.read ⟨true, fun _ => 0, 1⟩) :: List.replicate 5 (.run 0 0)) =
        some state ∧
      state.events = [.waitAdded 0 .rWait, .waitRemoved 0 .wWait] ∧ ¬QueuesPaired state := by
  refine ⟨_, rfl, rfl, ?_⟩
  rintro ⟨paired, -⟩
  exact absurd (paired 0) (by decide)

end LearnK.GlobalFifo
