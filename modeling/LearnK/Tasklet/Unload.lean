import LearnK.Tasklet.Core

/-! What `tasklet_demo_exit` leaves behind.  It calls `tasklet_kill` before `free_irq`, so an
interrupt between the two can schedule the tasklet again. -/

namespace LearnK.Tasklet

open StepMachine

/-- Once `tasklet_demo_exit` has returned, `my_tasklet` is neither pending nor running, and nothing
that can still happen makes it pending. -/
def UnloadsSafely (state : State) : Prop :=
  state.module = .exitReturned →
    state.myTasklet.pending = false ∧ state.myTasklet.running = none ∧
      ∀ later final, run step state later = some final → final.myTasklet.pending = false

def ModulePc.killed : ModulePc → Bool
  | .freeIrq | .synchronizeIrq | .printUnloaded | .exitReturned => true
  | _ => false

def ModulePc.unlinked : ModulePc → Bool
  | .synchronizeIrq | .printUnloaded | .exitReturned => true
  | _ => false

def ModulePc.freed : ModulePc → Bool
  | .printUnloaded | .exitReturned => true
  | _ => false

def ModulePc.inWindow : ModulePc → Bool
  | .freeIrq | .synchronizeIrq => true
  | _ => false

def SchedulesLate (state : State) : Action → Prop
  | .handle self => state.module.inWindow = true ∧
      (state.handlers[self]?.map Handler.pc) = some .schedule
  | _ => False

instance (state : State) : ∀ action, Decidable (SchedulesLate state action)
  | .handle self => inferInstanceAs (Decidable (state.module.inWindow = true ∧
      (state.handlers[self]?.map Handler.pc) = some .schedule))
  | .deliver _ | .softirq | .module _ => isFalse id

structure Teardown (state : State) : Prop where
  idle : state.module.killed = true →
    state.myTasklet.pending = false ∧ state.myTasklet.running = none
  unlinked : state.module.unlinked = true → state.registered = false
  quiet : state.module.freed = true → state.noHandler = true

theorem teardown_initial : Teardown initial :=
  ⟨by simp [initial, ModulePc.killed], by simp [initial, ModulePc.unlinked],
    by simp [initial, ModulePc.freed]⟩

theorem ModulePc.unlinked_of_freed {pc : ModulePc} (freed : pc.freed = true) : pc.unlinked = true := by
  cases pc <;> simp_all [ModulePc.freed, ModulePc.unlinked]

theorem ModulePc.inWindow_or_freed {pc : ModulePc} (killed : pc.killed = true) :
    pc.inWindow = true ∨ pc.freed = true := by
  cases pc <;> simp_all [ModulePc.freed, ModulePc.inWindow, ModulePc.killed]

structure HandlerStep (handled : Handler) (state next : State) : Prop where
  active : handled.pc.isReturned = false
  module : next.module = state.module
  registered : next.registered = state.registered
  tasklet : next.myTasklet =
    if handled.pc = .schedule then taskletSchedule state.myTasklet else state.myTasklet

theorem irqHandler_step {self : Nat} {handler : Handler} {state next : State}
    (stepped : irqHandler self handler state = some next) : HandlerStep handler state next := by
  unfold irqHandler at stepped
  cases pc : handler.pc with
  | test =>
      simp only [pc] at stepped
      split_ifs at stepped <;> cases stepped <;>
        exact ⟨by rw [pc]; rfl, rfl, rfl, by simp [pc, State.goto]⟩
  | count | schedule =>
      simp only [pc] at stepped
      cases stepped
      exact ⟨by rw [pc]; rfl, rfl, rfl, by simp [pc, State.goto]⟩
  | returned ret => simp [pc] at stepped

theorem Teardown.no_handler {state : State} (teardown : Teardown state)
    (freed : state.module.freed = true) {self : Nat} {handler : Handler}
    (found : state.handlers[self]? = some handler) : handler.pc.isReturned = true := by
  have quiet := teardown.quiet freed
  rw [State.noHandler, List.all_eq_true] at quiet
  exact quiet handler (List.mem_of_getElem? found)

theorem teardown_handle {state next : State} {self : Nat} {handler : Handler}
    (teardown : Teardown state) (early : ¬SchedulesLate state (.handle self))
    (found : state.handlers[self]? = some handler) (stepped : HandlerStep handler state next) :
    Teardown next := by
  have running : state.module.freed = false := by
    cases freed : state.module.freed with
    | false => rfl
    | true =>
        have returned := teardown.no_handler freed found
        simp [stepped.active] at returned
  refine ⟨fun killed => ?_, fun unlinked => ?_, fun freed => ?_⟩
  · rw [stepped.module] at killed
    have keeps : handler.pc ≠ .schedule := by
      intro schedules
      -- after `free_irq` no handler is left to do it
      rcases ModulePc.inWindow_or_freed killed with inWindow | freed
      · exact early ⟨inWindow, by rw [found, Option.map_some, schedules]⟩
      · simp [running] at freed
    rw [stepped.tasklet, if_neg keeps]
    exact teardown.idle killed
  · rw [stepped.module] at unlinked
    rw [stepped.registered]
    exact teardown.unlinked unlinked
  · rw [stepped.module, running] at freed
    simp at freed

theorem teardown_module {granted : Bool} {state next : State} (teardown : Teardown state)
    (stepped : moduleStep granted state = some next) : Teardown next := by
  unfold moduleStep at stepped
  have idle := teardown.idle
  have unlinked := teardown.unlinked
  have quiet := teardown.quiet
  cases pc : state.module with
  | taskletInit | printFailed | printLoaded =>
      simp only [pc] at stepped
      cases stepped
      exact ⟨by simp [ModulePc.killed], by simp [ModulePc.unlinked], by simp [ModulePc.freed]⟩
  | requestIrq | initReturned =>
      simp only [pc] at stepped
      split_ifs at stepped <;> cases stepped <;>
        exact ⟨by simp [ModulePc.killed], by simp [ModulePc.unlinked], by simp [ModulePc.freed]⟩
  | taskletKill =>
      simp only [pc] at stepped
      split_ifs at stepped with neither
      cases stepped
      exact ⟨fun _ => neither, by simp [ModulePc.unlinked], by simp [ModulePc.freed]⟩
  | freeIrq =>
      rw [pc] at idle
      simp only [pc] at stepped
      cases stepped
      exact ⟨fun _ => idle rfl, fun _ => rfl, by simp [ModulePc.freed]⟩
  | synchronizeIrq =>
      rw [pc] at idle unlinked
      simp only [pc] at stepped
      split_ifs at stepped with none
      cases stepped
      exact ⟨fun _ => idle rfl, fun _ => unlinked rfl, fun _ => none⟩
  | printUnloaded =>
      rw [pc] at idle unlinked quiet
      simp only [pc] at stepped
      cases stepped
      exact ⟨fun _ => idle rfl, fun _ => unlinked rfl, fun _ => quiet rfl⟩
  | exitReturned => simp [pc] at stepped

theorem myTaskletHandler_step {state next : State} (stepped : myTaskletHandler state = some next) :
    next.module = state.module ∧ next.registered = state.registered ∧
      next.handlers = state.handlers ∧
      ¬(state.myTasklet.pending = false ∧ state.myTasklet.running = none) := by
  unfold myTaskletHandler at stepped
  split at stepped
  · split_ifs at stepped with pending
    cases stepped
    exact ⟨rfl, rfl, rfl, by simp [pending]⟩
  · cases stepped
    rename_i running
    exact ⟨rfl, rfl, rfl, by simp [running]⟩
  · cases stepped
    rename_i running
    exact ⟨rfl, rfl, rfl, by simp [running]⟩

theorem teardown_step {state next : State} {action : Action} (teardown : Teardown state)
    (early : ¬SchedulesLate state action) (stepped : step state action = some next) :
    Teardown next := by
  cases action with
  | deliver irq =>
      simp only [step] at stepped
      split_ifs at stepped with linked
      cases stepped
      refine ⟨teardown.idle, teardown.unlinked, fun freed => ?_⟩
      have unlinked := teardown.unlinked (ModulePc.unlinked_of_freed freed)
      simp [linked] at unlinked
  | handle self =>
      obtain ⟨handler, found, handled⟩ := Option.bind_eq_some_iff.mp stepped
      exact teardown_handle teardown early found (irqHandler_step handled)
  | softirq =>
      obtain ⟨module, registered, handlers, busy⟩ := myTaskletHandler_step stepped
      refine ⟨fun killed => ?_, ?_, ?_⟩
      · rw [module] at killed
        exact absurd (teardown.idle killed) busy
      · rw [module, registered]
        exact teardown.unlinked
      · rw [module, State.noHandler, handlers]
        exact teardown.quiet
  | module granted => exact teardown_module teardown stepped

theorem Teardown.stuck {state : State} (teardown : Teardown state)
    (returned : state.module = .exitReturned) (action : Action) : step state action = none := by
  have idle := teardown.idle (by rw [returned]; rfl)
  have freed : state.module.freed = true := by rw [returned]; rfl
  cases action with
  | deliver irq => simp [step, teardown.unlinked (ModulePc.unlinked_of_freed freed)]
  | handle self =>
      rw [step, Option.bind_eq_none_iff]
      intro handler found
      have done := teardown.no_handler freed found
      rw [Option.eq_none_iff_forall_ne_some]
      intro next stepped
      simp [(irqHandler_step stepped).active] at done
  | softirq =>
      rw [step, Option.eq_none_iff_forall_ne_some]
      intro next stepped
      exact (myTaskletHandler_step stepped).2.2.2 idle
  | module granted => simp [step, moduleStep, returned]

theorem Teardown.safe {state : State} (teardown : Teardown state) : UnloadsSafely state := by
  intro returned
  obtain ⟨pending, running⟩ := teardown.idle (by rw [returned]; rfl)
  refine ⟨pending, running, fun later final ran => ?_⟩
  cases later with
  | nil => exact Option.some.inj ran ▸ pending
  | cons action rest =>
      obtain ⟨next, stepped, -⟩ := run_cons_some ran
      simp [teardown.stuck returned action] at stepped

def IrqPc.remaining : IrqPc → Nat
  | .test => 3
  | .count => 2
  | .schedule => 1
  | .returned _ => 0

def State.remaining (state : State) : Nat :=
  (state.handlers.map fun handler => handler.pc.remaining).sum

theorem irqHandler_advances {self : Nat} {handler : Handler} {state : State}
    (found : state.handlers[self]? = some handler) (active : handler.pc.isReturned = false) :
    ∃ next, irqHandler self handler state = some next ∧ next.remaining < state.remaining := by
  have shorter (pc : IrqPc) (less : pc.remaining < handler.pc.remaining) :
      (state.goto self handler pc).remaining < state.remaining :=
    Numbered.sum_set_lt found less
  unfold irqHandler
  cases pc : handler.pc with
  | test =>
      rw [pc] at shorter
      simp only [ne_eq, ite_not]
      split
      · exact ⟨_, rfl, shorter .count (by decide)⟩
      · exact ⟨_, rfl, shorter (.returned .irqNone) (by decide)⟩
  | count =>
      rw [pc] at shorter
      exact ⟨_, rfl, shorter .schedule (by decide)⟩
  | schedule =>
      rw [pc] at shorter
      exact ⟨_, rfl, shorter (.returned .irqHandled) (by decide)⟩
  | returned ret => simp [pc, IrqPc.isReturned] at active

theorem handlers_return (state : State) (pending : state.myTasklet.pending = true) :
    ∃ actions final, run step state actions = some final ∧ final.noHandler = true ∧
      final.module = state.module ∧ final.myTasklet.pending = true := by
  -- on the number of statements that the handlers have left
  generalize left : state.remaining = remaining
  induction remaining using Nat.strongRecOn generalizing state with
  | ind remaining ih =>
      by_cases none : state.noHandler = true
      · exact ⟨[], state, rfl, none, rfl, pending⟩
      · obtain ⟨handler, member, active⟩ :
            ∃ handler ∈ state.handlers, handler.pc.isReturned = false := by
          simpa [State.noHandler] using none
        obtain ⟨self, found⟩ := List.getElem?_of_mem member
        obtain ⟨next, handled, shorter⟩ := irqHandler_advances found active
        have stepped := irqHandler_step handled
        have still : next.myTasklet.pending = true := by
          rw [stepped.tasklet]
          split
          · rfl
          · exact pending
        obtain ⟨actions, final, ran, quiet, module, kept⟩ :=
          ih next.remaining (by omega) next still rfl
        refine ⟨.handle self :: actions, final, ?_, quiet, module.trans stepped.module, kept⟩
        rw [run_cons, step, found, Option.bind_some, handled]
        exact ran

theorem synchronizeIrq_misses {state : State} (pc : state.module = .synchronizeIrq)
    (pending : state.myTasklet.pending = true) :
    ∃ later final, run step state later = some final ∧ final.module = .exitReturned ∧
      final.myTasklet.pending = true := by
  obtain ⟨actions, quiesced, ran, quiet, module, still⟩ := handlers_return state pending
  refine ⟨actions ++ [.module true, .module true], { quiesced with
    module := .exitReturned, log := quiesced.log ++ [.unloaded quiesced.irqCounter] }, ?_, rfl, still⟩
  rw [run_append, ran]
  simp [run_cons, step, moduleStep, module.trans pc, quiet]

theorem inWindow_misses {state : State} (inWindow : state.module.inWindow = true)
    (pending : state.myTasklet.pending = true) :
    ∃ later final, run step state later = some final ∧ final.module = .exitReturned ∧
      final.myTasklet.pending = true := by
  cases pc : state.module with
  | freeIrq =>
      let freed := { state with module := .synchronizeIrq, registered := false }
      obtain ⟨later, final, ran, returned, still⟩ := @synchronizeIrq_misses freed rfl pending
      refine ⟨.module true :: later, final, ?_, returned, still⟩
      rw [run_cons]
      simp only [step, moduleStep, pc]
      exact ran
  | synchronizeIrq => exact synchronizeIrq_misses pc pending
  | taskletInit | requestIrq | printFailed | printLoaded | initReturned | taskletKill
  | printUnloaded | exitReturned => simp [pc, ModulePc.inWindow] at inWindow

/-- A run in which no handler schedules the tasklet between the returns of `tasklet_kill` and
`free_irq` unloads safely, and each time one does, the rest of the exit can leave it pending. -/
theorem taskletDemoExit_safe_when (actions : List Action) :
    (EachStep step (fun state action => ¬SchedulesLate state action) initial actions →
      Always step UnloadsSafely initial actions) ∧
    ∀ state action next, run step initial actions = some state → SchedulesLate state action →
      step state action = some next →
        ∃ later final, run step next later = some final ∧ ¬UnloadsSafely final := by
  constructor
  · intro early
    exact always_eachStep (fun _ _ _ early teardown stepped => teardown_step teardown early stepped)
      (fun _ => Teardown.safe) teardown_initial early
  · intro state action next _ late stepped
    cases action with
    | handle self =>
        obtain ⟨handler, found, handled⟩ := Option.bind_eq_some_iff.mp stepped
        obtain ⟨inWindow, schedules⟩ := late
        have effect := irqHandler_step handled
        have pending : next.myTasklet.pending = true := by
          rw [effect.tasklet, if_pos (by simpa [found] using schedules)]
          rfl
        obtain ⟨later, final, ran, returned, still⟩ :=
          inWindow_misses (effect.module ▸ inWindow) pending
        refine ⟨later, final, ran, fun safe => ?_⟩
        simp [(safe returned).1] at still
    | deliver | softirq | module => exact absurd late not_false

def earlyIrq : List Action :=
  [.module true, .module true, .module true, .deliver 1, .handle 0, .handle 0, .handle 0,
    .softirq, .module true, .softirq, .softirq, .module true, .module true, .module true, .module true]

theorem taskletDemoExit_safe_when_early : Always step UnloadsSafely initial earlyIrq ∧
    (run step initial earlyIrq).map (fun state => (state.module, state.log)) =
      some (.exitReturned, [.loaded, .running 0x1234, .unloaded 1]) :=
  ⟨(taskletDemoExit_safe_when earlyIrq).1 (by decide), by decide⟩

def lateIrq : List Action :=
  [.module true, .module true, .module true, .module true, .module true,
    .deliver 1, .handle 0, .handle 0, .handle 0, .module true, .module true, .module true]

theorem taskletDemoExit_leaves_pending : (∃ state, run step initial lateIrq = some state ∧
    state.module = .exitReturned ∧ state.myTasklet.pending = true) ∧
    ¬Always step UnloadsSafely initial lateIrq := by
  refine ⟨⟨_, rfl, rfl, rfl⟩, fun always => ?_⟩
  have safe := always.last rfl rfl
  exact absurd safe.1 (by decide)

end LearnK.Tasklet
