import LearnK.GlobalFifo.Exclusion
import Mathlib.Data.List.Forall2

/-! Which bytes belong to which call.  A read or write that returns a count has moved that many bytes
between its buffer and the device, once, and no other call has moved any. -/

namespace LearnK.GlobalFifo

open ByteMemory StepMachine

structure Logged where
  task : Nat
  kind : Kind
  call : Call
  event : Event

structure Moved where
  task : Nat
  kind : Kind
  call : Call
  bytes : List UInt8

structure Returned where
  task : Nat
  kind : Kind
  call : Call
  ret : Int

def Logged.moved (logged : Logged) : Option Moved :=
  match logged.event with
  | .accepted bytes => some ⟨logged.task, logged.kind, logged.call, bytes⟩
  | .delivered bytes => some ⟨logged.task, logged.kind, logged.call, bytes⟩
  | _ => none

def Logged.succeeded (logged : Logged) : Option Returned :=
  match logged.event with
  | .returned _ ret => if 0 ≤ ret then some ⟨logged.task, logged.kind, logged.call, ret⟩ else none
  | _ => none

def Task.logs (self : Nat) (task : Task) (events : List Event) : List Logged :=
  match task.activity with
  | .transfer kind call _ => events.map fun event => ⟨self, kind, call, event⟩
  | _ => []

def State.logs (state : State) : Action → List Logged
  | .run self copied => (taskStep self copied state.dev (state.tasks self)).elim [] fun effect =>
      (state.tasks self).logs self effect.events
  | _ => []

def transfers (actions : List Action) : List Moved :=
  (observed step State.logs initial actions).filterMap Logged.moved

def successes (actions : List Action) : List Returned :=
  (observed step State.logs initial actions).filterMap Logged.succeeded

/-- A call that has left the part of its critical section where it can fail, with the count it is
going to return. -/
def Task.owes (self : Nat) (task : Task) : List Returned :=
  match task.activity with
  | .transfer kind call (.wake count) => [⟨self, kind, call, count⟩]
  | .transfer kind call (.out ret) => if 0 ≤ ret then [⟨self, kind, call, ret⟩] else []
  | .transfer kind call (.out2 ret) => if 0 ≤ ret then [⟨self, kind, call, ret⟩] else []
  | .transfer kind call (.leave ret) => if 0 ≤ ret then [⟨self, kind, call, ret⟩] else []
  | _ => []

/-- The call returned as many bytes as it moved, and a write moved the first ones of its buffer. -/
structure Accounts (moved : Moved) (returned : Returned) : Prop where
  task : returned.task = moved.task
  kind : returned.kind = moved.kind
  call : returned.call = moved.call
  count : returned.ret = moved.bytes.length
  first : moved.kind = .write → moved.bytes = slice moved.call.buf 0 moved.bytes.length

def Task.Carries (task : Task) : Prop :=
  match task.activity with
  | .transfer kind call (.update count data) =>
      data.length = count ∧ (kind = .write → data = slice call.buf 0 count)
  | _ => True

/-- What the task owed and has moved now, it has returned now or owes. -/
def Balances (self : Nat) (task : Task) (effect : Effect) : Prop :=
  ∃ added, List.Forall₂ Accounts ((task.logs self effect.events).filterMap Logged.moved) added ∧
    task.owes self ++ added =
      (task.logs self effect.events).filterMap Logged.succeeded ++ effect.task.owes self

theorem Kind.data_carried (kind : Kind) (dev : HelloDev) (call : Call) (count : Nat) :
    (kind.ops.data dev call count).length = count ∧
      (kind = .write → kind.ops.data dev call count = slice call.buf 0 count) := by
  cases kind with
  | read => exact ⟨slice_length _ _ _, fun same => by simp at same⟩
  | write => exact ⟨slice_length _ _ _, fun _ => rfl⟩

theorem transferStep_carries {kind : Kind} {call : Call} {self copied : Nat} {dev : HelloDev}
    {task : Task} {pc : Pc} {effect : Effect}
    (stepped : transferStep kind call self copied dev task pc = some effect) :
    effect.task.Carries := by
  cases pc with
  | lock | relock =>
      obtain ⟨locked, -, rfl⟩ := Option.map_eq_some_iff.mp stepped
      trivial
  | addWait | setState | unlockLoop | update | wake | out | out2 | leave =>
      cases stepped
      trivial
  | test | schedule | signal =>
      simp only [transferStep] at stepped
      split_ifs at stepped <;> cases stepped <;> trivial
  | copy =>
      simp only [transferStep] at stepped
      split_ifs at stepped
      · cases stepped
        trivial
      · cases stepped
        exact kind.data_carried dev call _

theorem taskStep_carries {self copied : Nat} {dev : HelloDev} {task : Task} {effect : Effect}
    (stepped : taskStep self copied dev task = some effect) : effect.task.Carries := by
  unfold taskStep at stepped
  cases activity : task.activity with
  | idle => simp [activity] at stepped
  | transfer kind call pc =>
      rw [activity] at stepped
      exact transferStep_carries stepped
  | ioctl pc =>
      rw [activity] at stepped
      cases pc with
      | lock =>
          obtain ⟨locked, -, rfl⟩ := Option.map_eq_some_iff.mp stepped
          trivial
      | clear | unlock | leave =>
          cases stepped
          trivial
  | poll pc =>
      rw [activity] at stepped
      cases pc with
      | lock | relock =>
          obtain ⟨locked, -, rfl⟩ := Option.map_eq_some_iff.mp stepped
          trivial
      | mask | leave =>
          cases stepped
          trivial

theorem balances_same {self : Nat} {task : Task} {effect : Effect}
    (still : (task.logs self effect.events).filterMap Logged.moved = [])
    (inside : (task.logs self effect.events).filterMap Logged.succeeded = [])
    (same : effect.task.owes self = task.owes self) : Balances self task effect :=
  ⟨[], by rw [still]; exact .nil, by rw [inside, same, List.append_nil, List.nil_append]⟩

theorem Kind.copy_logs (kind : Kind) (self : Nat) (call : Call) (dev : HelloDev) (count copied : Nat) :
    let logged := (kind.ops.copy dev call count copied).2.map fun event =>
      (⟨self, kind, call, event⟩ : Logged)
    logged.filterMap Logged.moved = [] ∧ logged.filterMap Logged.succeeded = [] := by
  cases kind <;> exact ⟨rfl, rfl⟩

theorem Kind.update_logs (kind : Kind) (self : Nat) (call : Call) (dev : HelloDev) (count : Nat)
    (data : List UInt8) :
    let logged := (kind.ops.update dev count data).2.map fun event =>
      (⟨self, kind, call, event⟩ : Logged)
    logged.filterMap Logged.moved = [⟨self, kind, call, data⟩] ∧
      logged.filterMap Logged.succeeded = [] := by
  cases kind <;> exact ⟨rfl, rfl⟩

theorem transferStep_balances {kind : Kind} {call : Call} {self copied : Nat} {dev : HelloDev}
    {task : Task} {pc : Pc} {effect : Effect} (activity : task.activity = .transfer kind call pc)
    (carries : task.Carries) (stepped : transferStep kind call self copied dev task pc = some effect) :
    Balances self task effect := by
  have logs (events : List Event) : task.logs self events =
      events.map fun event => ⟨self, kind, call, event⟩ := by rw [Task.logs, activity]
  cases pc with
  | lock | relock =>
      obtain ⟨locked, -, rfl⟩ := Option.map_eq_some_iff.mp stepped
      exact balances_same (by rw [logs]; rfl) (by rw [logs]; rfl)
        (by rw [Task.owes, Task.owes, activity]; rfl)
  | addWait | setState | unlockLoop | out | out2 =>
      cases stepped
      exact balances_same (by rw [logs]; rfl) (by rw [logs]; rfl)
        (by rw [Task.owes, Task.owes, activity]; rfl)
  | test | schedule | signal =>
      simp only [transferStep] at stepped
      split_ifs at stepped <;> cases stepped <;>
        exact balances_same (by rw [logs]; rfl) (by rw [logs]; rfl)
          (by rw [Task.owes, Task.owes, activity]; rfl)
  | copy =>
      have silent := kind.copy_logs self call dev (kind.ops.clamp call.count dev.currentLen) copied
      simp only [transferStep] at stepped
      split_ifs at stepped <;> cases stepped <;>
        exact balances_same (by rw [logs]; exact silent.1) (by rw [logs]; exact silent.2)
          (by rw [Task.owes, Task.owes, activity]; rfl)
  | update count data =>
      cases stepped
      rw [Task.Carries, activity] at carries
      obtain ⟨moved, returned⟩ := kind.update_logs self call dev count data
      refine ⟨[⟨self, kind, call, count⟩], ?_, ?_⟩
      · rw [logs, moved]
        refine .cons ⟨rfl, rfl, rfl, congrArg Nat.cast carries.1.symm, fun write => ?_⟩ .nil
        rw [carries.1]
        exact carries.2 write
      · rw [logs, returned, Task.owes, activity]
        rfl
  | wake count =>
      cases stepped
      refine balances_same (by rw [logs]; rfl) (by rw [logs]; rfl) ?_
      rw [Task.owes, Task.owes, activity]
      exact if_pos (Int.natCast_nonneg count)
  | leave ret =>
      cases stepped
      refine ⟨[], by rw [logs]; exact .nil, ?_⟩
      rw [logs, Task.owes, Task.owes, activity]
      simp only [List.map_cons, List.map_nil, List.filterMap_cons, Logged.succeeded, Task.finish]
      split <;> rfl

theorem taskStep_balances {self copied : Nat} {dev : HelloDev} {task : Task} {effect : Effect}
    (carries : task.Carries) (stepped : taskStep self copied dev task = some effect) :
    Balances self task effect := by
  unfold taskStep at stepped
  cases activity : task.activity with
  | idle => simp [activity] at stepped
  | transfer kind call pc =>
      rw [activity] at stepped
      exact transferStep_balances activity carries stepped
  | ioctl pc =>
      rw [activity] at stepped
      have quiet (events : List Event) : task.logs self events = [] := by rw [Task.logs, activity]
      have nothing : task.owes self = [] := by rw [Task.owes, activity]
      refine balances_same (by rw [quiet]; rfl) (by rw [quiet]; rfl) ?_
      rw [nothing]
      cases pc with
      | lock =>
          obtain ⟨locked, -, rfl⟩ := Option.map_eq_some_iff.mp stepped
          rfl
      | clear | unlock | leave =>
          cases stepped
          rfl
  | poll pc =>
      rw [activity] at stepped
      have quiet (events : List Event) : task.logs self events = [] := by rw [Task.logs, activity]
      have nothing : task.owes self = [] := by rw [Task.owes, activity]
      refine balances_same (by rw [quiet]; rfl) (by rw [quiet]; rfl) ?_
      rw [nothing]
      cases pc with
      | lock | relock =>
          obtain ⟨locked, -, rfl⟩ := Option.map_eq_some_iff.mp stepped
          rfl
      | mask | leave =>
          cases stepped
          rfl

theorem Operation.start_owes (operation : Operation) (self : Nat) (task : Task) :
    ({ task with activity := operation.start } : Task).owes self = [] ∧
      ({ task with activity := operation.start } : Task).Carries := by
  cases operation <;> exact ⟨rfl, trivial⟩

structure CallInvariant (actions : List Action) (state : State) : Prop where
  carries : ∀ id, (state.tasks id).Carries
  accounts : ∀ id, List.Forall₂ Accounts ((transfers actions).filter (·.task = id))
    ((successes actions).filter (·.task = id) ++ (state.tasks id).owes id)

theorem callInvariant_initial : CallInvariant [] initial := ⟨fun _ => trivial, fun _ => .nil⟩

theorem moved_task {self : Nat} {task : Task} {events : List Event} {moved : Moved}
    (member : moved ∈ (task.logs self events).filterMap Logged.moved) : moved.task = self := by
  obtain ⟨logged, inside, shown⟩ := List.mem_filterMap.mp member
  unfold Task.logs at inside
  split at inside
  · obtain ⟨event, -, rfl⟩ := List.mem_map.mp inside
    cases event <;> simp only [Logged.moved, reduceCtorEq, Option.some.injEq] at shown <;>
      exact shown ▸ rfl
  · simp at inside

theorem succeeded_task {self : Nat} {task : Task} {events : List Event} {returned : Returned}
    (member : returned ∈ (task.logs self events).filterMap Logged.succeeded) :
    returned.task = self := by
  obtain ⟨logged, inside, shown⟩ := List.mem_filterMap.mp member
  unfold Task.logs at inside
  split at inside
  · obtain ⟨event, -, rfl⟩ := List.mem_map.mp inside
    cases event <;> simp only [Logged.succeeded, reduceCtorEq, Option.ite_none_right_eq_some,
      Option.some.injEq] at shown
    exact shown.2 ▸ rfl
  · simp at inside

theorem filter_own {α : Type} (task : α → Nat) {items : List α} {self : Nat}
    (own : ∀ item ∈ items, task item = self) (id : Nat) :
    items.filter (task · = id) = if id = self then items else [] := by
  split
  · rename_i same
    exact List.filter_eq_self.mpr fun item member => by simpa [same] using own item member
  · rename_i other
    refine List.filter_eq_nil_iff.mpr fun item member here => ?_
    exact other ((of_decide_eq_true here).symm.trans (own item member))

theorem transfers_snoc {before : List Action} {state : State}
    (reached : run step initial before = some state) (action : Action) :
    transfers (before ++ [action]) = transfers before ++ (state.logs action).filterMap Logged.moved := by
  rw [transfers, observed_snoc reached, List.filterMap_append, transfers]

theorem successes_snoc {before : List Action} {state : State}
    (reached : run step initial before = some state) (action : Action) :
    successes (before ++ [action]) =
      successes before ++ (state.logs action).filterMap Logged.succeeded := by
  rw [successes, observed_snoc reached, List.filterMap_append, successes]

theorem State.logs_run {state : State} {self copied : Nat} {effect : Effect}
    (ran : taskStep self copied state.dev (state.tasks self) = some effect) :
    state.logs (.run self copied) = (state.tasks self).logs self effect.events := by
  rw [State.logs, ran, Option.elim_some]

theorem callInvariant_setTask {before : List Action} {action : Action} {state : State} {self : Nat}
    {task : Task} (reached : run step initial before = some state) (silent : state.logs action = [])
    (invariant : CallInvariant before state) (carries : task.Carries)
    (same : task.owes self = (state.tasks self).owes self) :
    CallInvariant (before ++ [action]) (state.setTask self task) := by
  refine ⟨fun id => ?_, fun id => ?_⟩
  · rw [State.setTask_tasks]
    split
    · exact carries
    · exact invariant.carries id
  · rw [transfers_snoc reached, successes_snoc reached, silent, List.filterMap_nil, List.filterMap_nil,
      List.append_nil, List.append_nil, State.setTask_tasks]
    split
    · rename_i here
      rw [here, same]
      exact invariant.accounts self
    · exact invariant.accounts id

theorem callInvariant_run {before : List Action} {state : State} {self copied : Nat} {effect : Effect}
    (reached : run step initial before = some state) (invariant : CallInvariant before state)
    (ran : taskStep self copied state.dev (state.tasks self) = some effect) :
    CallInvariant (before ++ [.run self copied]) (state.apply self effect) := by
  refine ⟨fun id => ?_, fun id => ?_⟩
  · by_cases same : id = self
    · subst id
      rw [State.apply_self]
      exact taskStep_carries ran
    · rw [State.apply_other state effect same, Task.Carries, wakeUp_activity]
      exact invariant.carries id
  · rw [transfers_snoc reached, successes_snoc reached, State.logs_run ran, List.filter_append,
      List.filter_append]
    have moves := filter_own Moved.task (fun moved (member : moved ∈
      ((state.tasks self).logs self effect.events).filterMap Logged.moved) => moved_task member) id
    have returns := filter_own Returned.task (fun returned (member : returned ∈
      ((state.tasks self).logs self effect.events).filterMap Logged.succeeded) =>
        succeeded_task member) id
    rw [moves, returns]
    by_cases same : id = self
    · subst id
      obtain ⟨added, moved, balance⟩ := taskStep_balances (invariant.carries self) ran
      rw [if_pos rfl, if_pos rfl, State.apply_self, List.append_assoc, ← balance, ← List.append_assoc]
      exact List.rel_append (invariant.accounts self) moved
    · rw [if_neg same, if_neg same, List.append_nil, List.append_nil, State.apply_other state effect same,
        Task.owes, wakeUp_activity]
      exact invariant.accounts id

theorem callInvariant_step {before : List Action} {state next : State} {action : Action}
    (reached : run step initial before = some state) (invariant : CallInvariant before state)
    (stepped : step state action = some next) : CallInvariant (before ++ [action]) next := by
  obtain ⟨self, operation, rfl, idle, rfl⟩ | ⟨self, rfl, rfl⟩ | ⟨self, copied, effect, rfl, ran, rfl⟩ :=
    step_cases stepped
  · obtain ⟨nothing, carries⟩ := operation.start_owes self (state.tasks self)
    refine callInvariant_setTask reached rfl invariant carries ?_
    rw [nothing, Task.owes, idle]
  · exact callInvariant_setTask reached rfl invariant (invariant.carries self) rfl
  · exact callInvariant_run reached invariant ran

theorem callInvariant_reachable {actions : List Action} {state : State}
    (reached : run step initial actions = some state) : CallInvariant actions state :=
  run_history (fun _ _ _ _ led invariant stepped => callInvariant_step led invariant stepped)
    callInvariant_initial reached

end LearnK.GlobalFifo
