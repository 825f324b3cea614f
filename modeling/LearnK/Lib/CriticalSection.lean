import LearnK.Lib.StepMachine
import Mathlib.Logic.Function.Basic

/-! Processes that work on shared memory in small steps, all of them inside one critical section.
Whatever the interleaving, the memory and the results are those of the jobs done one after the
other in the order in which their sections end, and each job takes effect between its call and its
return. -/

namespace CriticalSection

open StepMachine Function

variable {Shared Job Progress Result : Type*}

/-- `skips` answers a job without entering the section, `enter` is where the section starts, and
`advance` its next small step, which may end it with the result. -/
structure Protocol (Shared Job Progress Result : Type*) where
  skips : Job → Option Result
  enter : Job → Progress
  advance : Shared → Progress → Shared × (Progress ⊕ Result)

inductive Task (Job Progress Result : Type*)
  | idle
  | waiting (job : Job)
  | inside (job : Job) (progress : Progress)
  | unlocking (result : Result)
  | leaving (result : Result)

def Task.holds : Task Job Progress Result → Bool
  | .inside _ _ | .unlocking _ => true
  | _ => false

inductive Event (Job Result : Type*)
  | called (id : Nat) (job : Job)
  | effect (id : Nat) (job : Job) (result : Result)
  | returned (id : Nat) (result : Result)

structure State (Shared Job Progress Result : Type*) where
  shared : Shared
  holder : Option Nat
  tasks : Nat → Task Job Progress Result
  events : List (Event Job Result)

def start (shared : Shared) : State Shared Job Progress Result := ⟨shared, none, fun _ => .idle, []⟩

inductive Action (Job : Type*)
  | call (id : Nat) (job : Job)
  | run (id : Nat)

def taskStep (protocol : Protocol Shared Job Progress Result)
    (state : State Shared Job Progress Result) (id : Nat) :
    Task Job Progress Result → Option (State Shared Job Progress Result)
  | .idle => none
  | .waiting job =>
      match protocol.skips job with
      | some result => some { state with
          tasks := update state.tasks id (.leaving result)
          events := state.events ++ [.effect id job result] }
      | none =>
          match state.holder with
          | none => some { state with
              holder := some id
              tasks := update state.tasks id (.inside job (protocol.enter job)) }
          | some _ => none
  | .inside job progress =>
      match protocol.advance state.shared progress with
      | (shared, .inl next) => some { state with
          shared := shared
          tasks := update state.tasks id (.inside job next) }
      | (shared, .inr result) => some { state with
          shared := shared
          tasks := update state.tasks id (.unlocking result)
          events := state.events ++ [.effect id job result] }
  | .unlocking result => some { state with
      holder := none
      tasks := update state.tasks id (.leaving result) }
  | .leaving result => some { state with
      tasks := update state.tasks id .idle
      events := state.events ++ [.returned id result] }

def step (protocol : Protocol Shared Job Progress Result) (state : State Shared Job Progress Result) :
    Action Job → Option (State Shared Job Progress Result)
  | .call id job =>
      match state.tasks id with
      | .idle => some { state with
          tasks := update state.tasks id (.waiting job)
          events := state.events ++ [.called id job] }
      | _ => none
  | .run id => taskStep protocol state id (state.tasks id)

inductive Partly (protocol : Protocol Shared Job Progress Result) (base : Shared) (job : Job) :
    Shared → Progress → Prop
  | enter : Partly protocol base job base (protocol.enter job)
  | advance {shared after : Shared} {progress next : Progress}
      (earlier : Partly protocol base job shared progress)
      (advanced : protocol.advance shared progress = (after, .inl next)) :
      Partly protocol base job after next

/-- The small steps of each job, run alone, do what `serve` does at once. -/
structure Computes (protocol : Protocol Shared Job Progress Result)
    (serve : Shared → Job → Shared × Result) : Prop where
  skips : ∀ base job result, protocol.skips job = some result → serve base job = (base, result)
  ends : ∀ base job shared progress after result, protocol.skips job = none →
    Partly protocol base job shared progress →
      protocol.advance shared progress = (after, .inr result) → serve base job = (after, result)

def replay [DecidableEq Result] (serve : Shared → Job → Shared × Result) (shared : Shared)
    (entry : Job × Result) : Option Shared :=
  if (serve shared entry.1).2 = entry.2 then some (serve shared entry.1).1 else none

def Event.entry : Event Job Result → Option (Job × Result)
  | .effect _ job result => some (job, result)
  | _ => none

def State.history (state : State Shared Job Progress Result) : List (Job × Result) :=
  state.events.filterMap Event.entry

/-- Where a process is in its calls: one takes effect once, after it was called and before it
returns what it took effect with. -/
inductive Session (Job Result : Type*)
  | idle
  | called (job : Job)
  | effected (result : Result)

def Event.caller : Event Job Result → Nat
  | .called id _ | .effect id _ _ | .returned id _ => id

inductive InSession (id : Nat) : List (Event Job Result) → Session Job Result → Prop
  | idle : InSession id [] .idle
  | called {events : List (Event Job Result)} (job : Job) (before : InSession id events .idle) :
      InSession id (events ++ [.called id job]) (.called job)
  | effect {events : List (Event Job Result)} {job : Job} (result : Result)
      (before : InSession id events (.called job)) :
      InSession id (events ++ [.effect id job result]) (.effected result)
  | returned {events : List (Event Job Result)} {result : Result}
      (before : InSession id events (.effected result)) :
      InSession id (events ++ [.returned id result]) .idle
  | other {events : List (Event Job Result)} {event : Event Job Result} {session : Session Job Result}
      (different : event.caller ≠ id) (before : InSession id events session) :
      InSession id (events ++ [event]) session

def Task.session : Task Job Progress Result → Session Job Result
  | .idle => .idle
  | .waiting job | .inside job _ => .called job
  | .unlocking result | .leaving result => .effected result

section

variable {protocol : Protocol Shared Job Progress Result}
  {serve : Shared → Job → Shared × Result} {first : Shared}
  {state next : State Shared Job Progress Result}

/-- `base` is what the finished jobs made of the memory; the job inside its section, if there is
one, has started from there. -/
structure Explains (protocol : Protocol Shared Job Progress Result)
    (tasks : Nat → Task Job Progress Result) (shared base : Shared) : Prop where
  settled : (∀ id job progress, tasks id ≠ .inside job progress) → base = shared
  inside : ∀ id job progress, tasks id = .inside job progress →
    protocol.skips job = none ∧ Partly protocol base job shared progress

structure Serial [DecidableEq Result] (protocol : Protocol Shared Job Progress Result)
    (serve : Shared → Job → Shared × Result) (first : Shared)
    (state : State Shared Job Progress Result) : Prop where
  holder : ∀ id, state.holder = some id ↔ (state.tasks id).holds = true
  explained : ∃ base, run (replay serve) first state.history = some base ∧
    Explains protocol state.tasks state.shared base
  sessions : ∀ id, InSession id state.events (state.tasks id).session

theorem replay_serves [DecidableEq Result] {shared after : Shared} {job : Job} {result : Result}
    (served : serve shared job = (after, result)) :
    run (replay serve) shared [(job, result)] = some after := by
  simp [run_cons, replay, served]

theorem holder_moved {holder : Option Nat} {tasks : Nat → Task Job Progress Result} {id : Nat}
    {task : Task Job Progress Result} (held : ∀ id, holder = some id ↔ (tasks id).holds = true)
    (same : task.holds = (tasks id).holds) (other : Nat) :
    holder = some other ↔ (update tasks id task other).holds = true := by
  by_cases here : other = id
  · subst here
    rw [update_self, same, held]
  · rw [update_of_ne here, held]

theorem explains_moved {tasks : Nat → Task Job Progress Result} {shared base : Shared} {id : Nat}
    {task : Task Job Progress Result} (explains : Explains protocol tasks shared base)
    (was : ∀ job progress, tasks id ≠ .inside job progress)
    (becomes : ∀ job progress, task ≠ .inside job progress) :
    Explains protocol (update tasks id task) shared base := by
  refine ⟨fun none => explains.settled fun other job progress found => ?_,
    fun other job progress found => ?_⟩
  · by_cases here : other = id
    · subst here
      exact was job progress found
    · exact none other job progress (by rw [update_of_ne here, found])
  · by_cases here : other = id
    · subst here
      rw [update_self] at found
      exact absurd found (becomes job progress)
    · rw [update_of_ne here] at found
      exact explains.inside other job progress found

theorem explains_alone {tasks : Nat → Task Job Progress Result} {shared base : Shared} {id : Nat}
    {task : Task Job Progress Result}
    (alone : ∀ other, other ≠ id → (tasks other).holds = false)
    (settled : (∀ job progress, task ≠ .inside job progress) → base = shared)
    (inside : ∀ job progress, task = .inside job progress →
      protocol.skips job = none ∧ Partly protocol base job shared progress) :
    Explains protocol (update tasks id task) shared base := by
  refine ⟨fun none => settled fun job progress found => none id job progress (by simpa using found),
    fun other job progress found => ?_⟩
  by_cases here : other = id
  · subst here
    exact inside job progress (by simpa using found)
  · rw [update_of_ne here] at found
    have outside := alone other here
    simp [found, Task.holds] at outside

section

variable [DecidableEq Result]

theorem alone_of_holder (serial : Serial protocol serve first state) (id : Nat)
    (holds : (state.tasks id).holds = true) (other : Nat) (different : other ≠ id) :
    (state.tasks other).holds = false := by
  by_contra held
  have mine := (serial.holder id).mpr holds
  rw [(serial.holder other).mpr (by simpa using held), Option.some.injEq] at mine
  exact different mine

theorem alone_of_free (serial : Serial protocol serve first state) (free : state.holder = none)
    (other : Nat) : (state.tasks other).holds = false := by
  by_contra held
  have mine := (serial.holder other).mpr (by simpa using held)
  simp [free] at mine

omit [DecidableEq Result] in
theorem sessions_same {id : Nat} {task : Task Job Progress Result}
    (sessions : ∀ id, InSession id state.events (state.tasks id).session)
    (same : task.session = (state.tasks id).session) (other : Nat) :
    InSession other state.events (update state.tasks id task other).session := by
  by_cases here : other = id
  · subst here
    rw [update_self, same]
    exact sessions other
  · rw [update_of_ne here]
    exact sessions other

omit [DecidableEq Result] in
theorem sessions_event {task : Task Job Progress Result} (event : Event Job Result)
    (sessions : ∀ id, InSession id state.events (state.tasks id).session)
    (own : InSession event.caller (state.events ++ [event]) task.session) (other : Nat) :
    InSession other (state.events ++ [event]) (update state.tasks event.caller task other).session := by
  by_cases here : other = event.caller
  · rw [here, update_self]
    exact own
  · rw [update_of_ne here]
    exact .other (Ne.symm here) (sessions other)

theorem serial_start (shared : Shared) : Serial protocol serve shared (start shared) where
  holder id := by simp [start, Task.holds]
  explained := ⟨shared, rfl, fun _ => rfl, fun _ _ _ inside => by simp [start] at inside⟩
  sessions _ := .idle

theorem serial_call {id : Nat} {job : Job} (serial : Serial protocol serve first state)
    (stepped : step protocol state (.call id job) = some next) :
    Serial protocol serve first next := by
  simp only [step] at stepped
  split at stepped
  case h_2 => simp at stepped
  case h_1 idle =>
    obtain rfl := Option.some.inj stepped
    obtain ⟨base, replayed, explains⟩ := serial.explained
    refine ⟨holder_moved serial.holder (by rw [idle]; rfl), ⟨base, ?_, ?_⟩, ?_⟩
    · rw [State.history, List.filterMap_append]
      exact (List.append_nil _).symm ▸ replayed
    · exact explains_moved explains (by simp [idle]) (by simp)
    · have session := serial.sessions id
      rw [idle] at session
      exact sessions_event (.called id job) serial.sessions (.called job session)

theorem serial_effect {id : Nat} {task : Task Job Progress Result} {shared base after : Shared}
    {holder : Option Nat} {job : Job} {result : Result} (serial : Serial protocol serve first state)
    (waits : (state.tasks id).session = .called job) (done : task.session = .effected result)
    (held : ∀ other, holder = some other ↔ (update state.tasks id task other).holds = true)
    (replayed : run (replay serve) first state.history = some base)
    (served : serve base job = (after, result))
    (explains : Explains protocol (update state.tasks id task) shared after) :
    Serial protocol serve first
      ⟨shared, holder, update state.tasks id task, state.events ++ [.effect id job result]⟩ := by
  refine ⟨held, ⟨after, ?_, explains⟩, ?_⟩
  · have told : (⟨shared, holder, update state.tasks id task,
        state.events ++ [.effect id job result]⟩ : State Shared Job Progress Result).history =
          state.history ++ [(job, result)] := by
      rw [State.history, List.filterMap_append]
      rfl
    rw [told, run_append, replayed]
    exact replay_serves served
  · have session := serial.sessions id
    rw [waits] at session
    exact sessions_event (.effect id job result) serial.sessions (done ▸ .effect result session)

theorem serial_run {id : Nat} (computes : Computes protocol serve)
    (serial : Serial protocol serve first state)
    (stepped : step protocol state (.run id) = some next) : Serial protocol serve first next := by
  obtain ⟨base, replayed, explains⟩ := serial.explained
  simp only [step] at stepped
  cases task : state.tasks id with
  | idle => simp [task, taskStep] at stepped
  | waiting job =>
      rw [task] at stepped
      simp only [taskStep] at stepped
      have called : (state.tasks id).session = .called job := by rw [task]; rfl
      have outside : (state.tasks id).holds = false := by rw [task]; rfl
      split at stepped
      · rename_i result skipped
        obtain rfl := Option.some.inj stepped
        exact serial_effect serial called rfl (holder_moved serial.holder outside.symm) replayed
          (computes.skips base job result skipped) (explains_moved explains (by simp [task]) (by simp))
      · rename_i enters
        split at stepped
        · rename_i free
          obtain rfl := Option.some.inj stepped
          have alone := alone_of_free serial free
          have settled : base = state.shared := explains.settled fun other job progress found => by
            have held := alone other
            simp [found, Task.holds] at held
          refine ⟨fun other => ?_, ⟨base, replayed, ?_⟩, sessions_same serial.sessions called.symm⟩
          · by_cases here : other = id
            · simp [here, Task.holds]
            · simp [update_of_ne here, Ne.symm here, alone other]
          · refine explains_alone (fun other _ => alone other) (by simp) fun job' progress found => ?_
            obtain ⟨rfl, rfl⟩ := Task.inside.inj found
            exact ⟨enters, settled ▸ .enter⟩
        · simp at stepped
  | inside job progress =>
      rw [task] at stepped
      simp only [taskStep] at stepped
      have alone := alone_of_holder serial id (by rw [task]; rfl)
      obtain ⟨enters, partly⟩ := explains.inside id job progress task
      have called : (state.tasks id).session = .called job := by rw [task]; rfl
      have held : (state.tasks id).holds = true := by rw [task]; rfl
      split at stepped
      · rename_i shared later advanced
        obtain rfl := Option.some.inj stepped
        refine ⟨holder_moved serial.holder held.symm, ⟨base, replayed, ?_⟩,
          sessions_same serial.sessions called.symm⟩
        refine explains_alone alone (by simp) fun job' progress' found => ?_
        obtain ⟨rfl, rfl⟩ := Task.inside.inj found
        exact ⟨enters, partly.advance advanced⟩
      · rename_i shared result advanced
        obtain rfl := Option.some.inj stepped
        exact serial_effect serial called rfl (holder_moved serial.holder held.symm) replayed
          (computes.ends base job state.shared progress shared result enters partly advanced)
          (explains_alone alone (fun _ => rfl) (by simp))
  | unlocking result =>
      rw [task] at stepped
      obtain rfl := Option.some.inj stepped
      have alone := alone_of_holder serial id (by rw [task]; rfl)
      refine ⟨fun other => ?_, ⟨base, replayed, ?_⟩, sessions_same serial.sessions (by rw [task]; rfl)⟩
      · by_cases here : other = id
        · simp [here, Task.holds]
        · simp [update_of_ne here, alone other here]
      · exact explains_moved explains (by simp [task]) (by simp)
  | leaving result =>
      rw [task] at stepped
      obtain rfl := Option.some.inj stepped
      refine ⟨holder_moved serial.holder (by rw [task]; rfl), ⟨base, ?_, ?_⟩, ?_⟩
      · rw [State.history, List.filterMap_append]
        exact (List.append_nil _).symm ▸ replayed
      · exact explains_moved explains (by simp [task]) (by simp)
      · have session := serial.sessions id
        rw [task] at session
        exact sessions_event (.returned id result) serial.sessions (.returned session)

theorem serial_step (computes : Computes protocol serve) {action : Action Job}
    (serial : Serial protocol serve first state) (stepped : step protocol state action = some next) :
    Serial protocol serve first next := by
  cases action with
  | call id job => exact serial_call serial stepped
  | run id => exact serial_run computes serial stepped

/-- Every interleaving of the small steps is explained by the jobs done one after the other. -/
theorem serial_reachable (computes : Computes protocol serve) {actions : List (Action Job)}
    (reached : run (step protocol) (start first) actions = some state) :
    Serial protocol serve first state :=
  run_invariant (fun _ _ _ serial stepped => serial_step computes serial stepped)
    (serial_start first) reached

theorem Serial.replays (serial : Serial protocol serve first state) (free : state.holder = none) :
    run (replay serve) first state.history = some state.shared := by
  obtain ⟨base, replayed, explains⟩ := serial.explained
  rw [replayed, explains.settled fun id job progress found => ?_]
  have held := alone_of_free serial free id
  simp [found, Task.holds] at held

end

end

end CriticalSection
