import LearnK.GlobalFifo.Discipline

/-! Loading the module: `hello_init` interleaved with the file operations.  The device is live
from `cdev_add` on, and only afterwards are its mutex and its wait queues initialised. -/

namespace LearnK.GlobalFifo

open StepMachine

def enomem : Int := 12

inductive InitPc
  | register
  | kzalloc
  | addCdev
  | initMutex
  | initRWait
  | initWWait
  | done (ret : Int)
  deriving DecidableEq, Repr

inductive Shared
  | mutex
  | queue (queue : WaitQueue)
  deriving DecidableEq, Repr

def InitPc.ready : InitPc → Shared → Bool
  | .initRWait, .mutex => true
  | .initWWait, .mutex | .initWWait, .queue .rWait => true
  | .done _, _ => true
  | _, _ => false

def Activity.uses : Activity → List Shared
  | .transfer _ _ .lock | .transfer _ _ .relock => [.mutex]
  | .transfer _ _ .unlockLoop | .transfer _ _ (.out _) => [.mutex]
  | .transfer kind _ .addWait => [.queue kind.ops.joins]
  | .transfer kind _ (.wake _) => [.queue kind.ops.wakes]
  | .transfer kind _ (.out2 _) => [.queue kind.ops.removes]
  | .ioctl .lock | .ioctl .unlock => [.mutex]
  | .poll .lock | .poll (.relock _) => [.mutex]
  | .poll .mask => [.queue .rWait, .queue .wWait]
  | _ => []

structure Use where
  task : Nat
  object : Shared
  ready : Bool
  deriving DecidableEq, Repr

structure LoadState where
  init : InitPc
  live : Bool
  opened : Nat → Bool
  device : State
  uses : List Use

def LoadState.unloaded : LoadState := ⟨.register, false, fun _ => false, initial, []⟩

/-- The loader runs the next statement of `hello_init`, whose call into the kernel returns
`result`; a process opens the device; or something happens to the processes inside. -/
inductive LoadAction
  | init (result : Int)
  | openDevice (task : Nat)
  | client (action : Action)

def LoadState.setDev (state : LoadState) (dev : HelloDev) : LoadState :=
  { state with device := { state.device with dev := dev } }

/-- `kzalloc` returning 0 is a failed allocation; an error of `cdev_add` is only printed. -/
def helloInitStep (state : LoadState) (result : Int) : Option LoadState :=
  match state.init with
  | .register => some { state with init := if result < 0 then .done result else .kzalloc }
  | .kzalloc =>
      if result = 0 then some { state with init := .done (-enomem) }
      else some { state.setDev HelloDev.zeroed with init := .addCdev }
  | .addCdev => some { state with init := .initMutex, live := result == 0 }
  | .initMutex => some { state.setDev { state.device.dev with mutex := none } with init := .initRWait }
  | .initRWait => some { state.setDev { state.device.dev with rWait := [] } with init := .initWWait }
  | .initWWait => some { state.setDev { state.device.dev with wWait := [] } with init := .done 0 }
  | .done _ => none

def LoadState.used (state : LoadState) : Action → List Use
  | .run self _ => (state.device.tasks self).activity.uses.map fun object =>
      ⟨self, object, state.init.ready object⟩
  | _ => []

def LoadState.admits (state : LoadState) : Action → Bool
  | .enter self _ => state.opened self
  | _ => true

def loadStep (state : LoadState) : LoadAction → Option LoadState
  | .init result => helloInitStep state result
  | .openDevice task =>
      if state.live then some { state with opened := fun id => id == task || state.opened id }
      else none
  | .client action =>
      if state.admits action then
        (step state.device action).map fun device =>
          { state with device := device, uses := state.uses ++ state.used action }
      else none

def LoadSafe (state : LoadState) : Prop :=
  (∀ use ∈ state.uses, use.ready = true) ∧
    ∀ first second, (state.device.tasks first).critical = true →
      (state.device.tasks second).critical = true → first = second

def Activity.footprint : Activity → List Shared
  | .idle => []
  | .transfer _ _ _ => [.mutex, .queue .rWait, .queue .wWait]
  | .ioctl _ => [.mutex]
  | .poll _ => [.mutex, .queue .rWait, .queue .wWait]

def Activity.entering : Activity → Bool
  | .transfer _ _ .lock => true
  | .ioctl .lock => true
  | .poll .lock => true
  | _ => false

def EntersReady (state : LoadState) : LoadAction → Prop
  | .client (.run self _) => (state.device.tasks self).activity.entering = true →
      ∀ object ∈ (state.device.tasks self).activity.footprint, state.init.ready object = true
  | _ => True

instance (state : LoadState) : ∀ action, Decidable (EntersReady state action)
  | .client (.run _ _) => inferInstanceAs (Decidable (_ → _))
  | .client (.enter _ _) => isTrue trivial
  | .client (.signal _) => isTrue trivial
  | .init _ => isTrue trivial
  | .openDevice _ => isTrue trivial

def Activity.started : Activity → Bool
  | .transfer _ _ .lock => false
  | .transfer _ _ _ => true
  | .ioctl .clear | .ioctl .unlock => true
  | .poll .lock => false
  | .poll _ => true
  | _ => false

theorem Activity.transfer_inside (kind : Kind) (call : Call) (pc : Pc) :
    (Activity.transfer kind call pc).entering = true ∨
      (Activity.transfer kind call pc).started = true := by
  cases pc <;> simp [Activity.entering, Activity.started]

theorem Activity.uses_inside {activity : Activity} {object : Shared}
    (used : object ∈ activity.uses) :
    object ∈ activity.footprint ∧ (activity.entering = true ∨ activity.started = true) := by
  cases activity with
  | idle => simp [Activity.uses] at used
  | transfer kind call pc =>
      refine ⟨?_, Activity.transfer_inside kind call pc⟩
      cases object with
      | mutex => simp [Activity.footprint]
      | queue queue => cases queue <;> simp [Activity.footprint]
  | ioctl pc => cases pc <;> simp [Activity.uses] at used <;> subst used <;>
      simp [Activity.footprint, Activity.entering, Activity.started]
  | poll pc =>
      refine ⟨?_, ?_⟩
      · cases object with
        | mutex => simp [Activity.footprint]
        | queue queue => cases queue <;> simp [Activity.footprint]
      · cases pc <;> simp [Activity.entering, Activity.started]

theorem Activity.critical_started {activity : Activity} (critical : activity.critical = true) :
    activity.started = true ∧ Shared.mutex ∈ activity.footprint := by
  cases activity with
  | idle => simp [Activity.critical] at critical
  | transfer kind call pc =>
      cases pc <;> simp [Activity.critical, Pc.critical] at critical <;>
        simp [Activity.started, Activity.footprint]
  | ioctl pc =>
      cases pc <;> simp [Activity.critical] at critical <;>
        simp [Activity.started, Activity.footprint]
  | poll pc =>
      cases pc <;> simp [Activity.critical] at critical <;>
        simp [Activity.started, Activity.footprint]

theorem Operation.start_not_started (operation : Operation) : operation.start.started = false := by
  cases operation with
  | ioctl cmd =>
      simp only [Operation.start]
      split <;> rfl
  | _ => rfl

theorem taskStep_started {self copied : Nat} {dev : HelloDev} {task : Task} {effect : Effect}
    (stepped : taskStep self copied dev task = some effect)
    (started : effect.task.activity.started = true) :
    effect.task.activity.footprint = task.activity.footprint ∧
      (task.activity.entering = true ∨ task.activity.started = true) := by
  unfold taskStep at stepped
  cases activity : task.activity with
  | idle => simp [activity] at stepped
  | transfer kind call pc =>
      rw [activity] at stepped
      refine ⟨?_, Activity.transfer_inside kind call pc⟩
      rcases transferStep_activity stepped with idle | ⟨after, moved⟩
      · simp [idle, Activity.started] at started
      · rw [moved]
        rfl
  | ioctl pc =>
      rw [activity] at stepped
      cases pc with
      | lock =>
          obtain ⟨locked, -, rfl⟩ := Option.map_eq_some_iff.mp stepped
          exact ⟨rfl, .inl rfl⟩
      | clear =>
          cases stepped
          exact ⟨rfl, .inr rfl⟩
      | unlock | leave =>
          cases stepped
          simp [Activity.started, Task.finish] at started
  | poll pc =>
      rw [activity] at stepped
      cases pc with
      | lock | relock =>
          obtain ⟨locked, -, rfl⟩ := Option.map_eq_some_iff.mp stepped
          exact ⟨rfl, by simp [Activity.entering, Activity.started]⟩
      | mask =>
          cases stepped
          exact ⟨rfl, .inr rfl⟩
      | leave =>
          cases stepped
          simp [Activity.started, Task.finish] at started

structure LoadInvariant (state : LoadState) : Prop where
  ready : ∀ id, (state.device.tasks id).activity.started = true →
    ∀ object ∈ (state.device.tasks id).activity.footprint, state.init.ready object = true
  exclusive : Exclusive state.device
  used : ∀ use ∈ state.uses, use.ready = true

theorem loadInvariant_unloaded : LoadInvariant .unloaded where
  ready id started := by
    simp [LoadState.unloaded, initial, Task.fresh, Activity.started] at started
  exclusive := exclusive_initial
  used := by simp [LoadState.unloaded]

theorem LoadInvariant.outside {state : LoadState} (invariant : LoadInvariant state)
    (early : state.init.ready .mutex = false) (id : Nat) :
    (state.device.tasks id).critical = false := by
  by_contra critical
  obtain ⟨started, uses⟩ := Activity.critical_started (Bool.not_eq_false _ ▸ critical)
  have ready := invariant.ready id started .mutex uses
  simp [early] at ready

theorem LoadInvariant.advance {state next : LoadState} (invariant : LoadInvariant state)
    (tasks : next.device.tasks = state.device.tasks) (uses : next.uses = state.uses)
    (grows : ∀ object, state.init.ready object = true → next.init.ready object = true)
    (mutex : next.device.dev.mutex = state.device.dev.mutex ∨ state.init.ready .mutex = false) :
    LoadInvariant next where
  ready id started object member := by
    rw [tasks] at started member
    exact grows object (invariant.ready id started object member)
  exclusive id critical := by
    rw [tasks] at critical
    rcases mutex with same | early
    · rw [same]
      exact invariant.exclusive id critical
    · rw [invariant.outside early id] at critical
      simp at critical
  used := by
    rw [uses]
    exact invariant.used

theorem helloInitStep_invariant {state next : LoadState} {result : Int}
    (invariant : LoadInvariant state) (stepped : helloInitStep state result = some next) :
    LoadInvariant next := by
  rw [helloInitStep] at stepped
  cases init : state.init with
  | register =>
      simp only [init] at stepped
      cases stepped
      refine invariant.advance rfl rfl ?_ (.inl rfl)
      simp [init, InitPc.ready]
  | kzalloc =>
      simp only [init] at stepped
      split at stepped <;> cases stepped <;>
        exact invariant.advance rfl rfl (by simp [init, InitPc.ready])
          (.inr (by simp [init, InitPc.ready]))
  | addCdev =>
      simp only [init] at stepped
      cases stepped
      exact invariant.advance rfl rfl (by simp [init, InitPc.ready]) (.inl rfl)
  | initMutex =>
      simp only [init] at stepped
      cases stepped
      exact invariant.advance rfl rfl (by simp [init, InitPc.ready])
        (.inr (by simp [init, InitPc.ready]))
  | initRWait =>
      simp only [init] at stepped
      cases stepped
      refine invariant.advance rfl rfl ?_ (.inl rfl)
      intro object ready
      cases object <;> simp_all [InitPc.ready]
  | initWWait =>
      simp only [init] at stepped
      cases stepped
      exact invariant.advance rfl rfl (by simp [InitPc.ready]) (.inl rfl)
  | done => simp [init] at stepped

theorem client_invariant {state : LoadState} {action : Action} {device : State}
    (enters : EntersReady state (.client action)) (invariant : LoadInvariant state)
    (stepped : step state.device action = some device) :
    LoadInvariant { state with device := device, uses := state.uses ++ state.used action } := by
  have exclusive := exclusive_step invariant.exclusive stepped
  obtain ⟨self, operation, rfl, -, rfl⟩ | ⟨self, rfl, rfl⟩ | ⟨self, copied, effect, rfl, ran, rfl⟩ :=
    step_cases stepped
  · refine ⟨?_, exclusive, by simpa [LoadState.used] using invariant.used⟩
    intro id started object member
    rw [State.setTask_tasks] at started member
    split at started
    · simp [operation.start_not_started] at started
    · rename_i different
      rw [if_neg different] at member
      exact invariant.ready id started object member
  · refine ⟨?_, exclusive, by simpa [LoadState.used] using invariant.used⟩
    intro id started object member
    have same : ((state.device.setTask self { state.device.tasks self with
        state := .running, sigPending := true }).tasks id).activity =
          (state.device.tasks id).activity := by
      rw [State.setTask_tasks]
      split
      · rename_i here
        rw [here]
      · rfl
    rw [same] at started member
    exact invariant.ready id started object member
  · have inside (within : (state.device.tasks self).activity.entering = true ∨
        (state.device.tasks self).activity.started = true) (object : Shared)
        (member : object ∈ (state.device.tasks self).activity.footprint) :
        state.init.ready object = true := by
      rcases within with entering | started
      · exact enters entering object member
      · exact invariant.ready self started object member
    refine ⟨?_, exclusive, ?_⟩
    · intro id started object member
      by_cases same : id = self
      · subst same
        rw [State.apply_self] at started member
        obtain ⟨footprint, within⟩ := taskStep_started ran started
        exact inside within object (footprint ▸ member)
      · rw [State.apply_other state.device effect same, wakeUp_activity] at started member
        exact invariant.ready id started object member
    · intro use member
      rcases List.mem_append.mp member with old | new
      · exact invariant.used use old
      · obtain ⟨object, used, rfl⟩ := List.mem_map.mp new
        obtain ⟨footprint, within⟩ := Activity.uses_inside used
        exact inside within object footprint

theorem loadInvariant_step {state next : LoadState} {action : LoadAction}
    (enters : EntersReady state action) (invariant : LoadInvariant state)
    (stepped : loadStep state action = some next) : LoadInvariant next := by
  cases action with
  | init result => exact helloInitStep_invariant invariant stepped
  | openDevice task =>
      rw [loadStep] at stepped
      split at stepped
      · cases stepped
        exact ⟨invariant.ready, invariant.exclusive, invariant.used⟩
      · simp at stepped
  | client action =>
      rw [loadStep] at stepped
      split at stepped
      · obtain ⟨device, moved, rfl⟩ := Option.map_eq_some_iff.mp stepped
        exact client_invariant enters invariant moved
      · simp at stepped

/-- Loading is safe in every run whose operations take their first `mutex_lock` only when all
they use has been initialised. -/
theorem helloInit_safe (actions : List LoadAction) (state : LoadState)
    (reached : run loadStep .unloaded actions = some state)
    (enters : EachStep loadStep EntersReady .unloaded actions) : LoadSafe state := by
  have invariant : LoadInvariant state :=
    run_invariant_eachStep (fun _ _ _ enters invariant stepped =>
      loadInvariant_step enters invariant stepped) loadInvariant_unloaded enters reached
  exact ⟨invariant.used, fun _ _ => exclusive_unique invariant.exclusive⟩

def patientClear : List LoadAction :=
  [.init 0, .init 1, .init 0, .openDevice 1, .init 0, .client (.enter 1 (.ioctl memClear)),
    .client (.run 1 0), .init 0, .client (.run 1 0), .init 0]

theorem helloInit_safe_patientClear :
    ∃ state, run loadStep .unloaded patientClear = some state ∧ LoadSafe state :=
  ⟨_, rfl, helloInit_safe patientClear _ rfl (by decide)⟩

def hastyClears : List LoadAction :=
  [.init 0, .init 1, .init 0, .openDevice 1, .openDevice 2, .client (.enter 1 (.ioctl memClear)),
    .client (.run 1 0), .init 0, .client (.enter 2 (.ioctl memClear)), .client (.run 2 0)]

/-- A process that clears between `cdev_add` and `mutex_init` uses a mutex nobody has initialised,
and once `mutex_init` has reset it a second process gets in beside it. -/
theorem helloInit_lets_two_inside : ∃ state, run loadStep .unloaded hastyClears = some state ∧
    ⟨1, .mutex, false⟩ ∈ state.uses ∧ (state.device.tasks 1).critical = true ∧
      (state.device.tasks 2).critical = true ∧ ¬LoadSafe state := by
  refine ⟨_, rfl, by decide, rfl, rfl, ?_⟩
  rintro ⟨-, unique⟩
  exact absurd (unique 1 2 rfl rfl) (by decide)

end LearnK.GlobalFifo
