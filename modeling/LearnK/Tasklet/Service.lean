import LearnK.Tasklet.Unload
import Mathlib.Data.List.Count

/-! What the interrupts get for their `tasklet_schedule`: no more runs of the handler than interrupts,
and after each of them one run that begins later, unless the tasklet is still waiting for it. -/

namespace LearnK.Tasklet

open StepMachine

def IrqPc.counted : IrqPc → Bool
  | .schedule | .returned .irqHandled => true
  | _ => false

def IrqPc.accepted : IrqPc → Bool
  | .count | .schedule | .returned .irqHandled => true
  | _ => false

def IrqPc.scheduled : IrqPc → Bool
  | .returned .irqHandled => true
  | _ => false

def Message.isRunning : Message → Bool
  | .running _ => true
  | _ => false

def State.counted (state : State) : Nat := state.handlers.countP fun handler => handler.pc.counted

def State.scheduled (state : State) : Nat := state.handlers.countP fun handler => handler.pc.scheduled

def State.executions (state : State) : Nat :=
  state.log.countP Message.isRunning + if state.myTasklet.running = some .printk then 1 else 0

structure Accounts (state : State) : Prop where
  counter : state.irqCounter = Int32.ofNat state.counted
  own : ∀ handler ∈ state.handlers, handler.pc.accepted = true → handler.irq = irqNum
  atMost : state.executions + state.myTasklet.pending.toNat ≤ state.scheduled
  served : 0 < state.scheduled → 0 < state.executions + state.myTasklet.pending.toNat
  total : ∀ total, .unloaded total ∈ state.log →
    state.counted = state.scheduled ∧ total = Int32.ofNat state.scheduled

structure Stages (state : State) : Prop where
  loading : state.module = .taskletInit → state = initial
  unlinked : state.module.unlinked = true → state.registered = false
  quiet : state.module.freed = true → state.noHandler = true
  reported : ∀ total, .unloaded total ∈ state.log →
    state.module = .exitReturned ∧ total = state.irqCounter

theorem Stages.no_handler {state : State} (stages : Stages state) (freed : state.module.freed = true)
    {self : Nat} {handler : Handler} (found : state.handlers[self]? = some handler) :
    handler.pc.isReturned = true := by
  have quiet := stages.quiet freed
  rw [State.noHandler, List.all_eq_true] at quiet
  exact quiet handler (List.mem_of_getElem? found)

structure Moved (handler : Handler) (pc : IrqPc) (state next : State) : Prop where
  counted : next.counted + handler.pc.counted.toNat = state.counted + pc.counted.toNat
  scheduled : next.scheduled + handler.pc.scheduled.toNat = state.scheduled + pc.scheduled.toNat
  own : ∀ other ∈ next.handlers, other ∈ state.handlers ∨ other = { handler with pc := pc }

theorem Accounts.moved {handler : Handler} {pc : IrqPc} {state next : State} (accounts : Accounts state)
    (moved : Moved handler pc state next) (silent : ∀ total, .unloaded total ∉ next.log)
    (here : pc.accepted = true → handler.irq = irqNum)
    (counter : next.irqCounter = Int32.ofNat next.counted)
    (executions : next.executions = state.executions)
    (pending : next.scheduled = state.scheduled ∧ next.myTasklet.pending = state.myTasklet.pending ∨
      next.scheduled = state.scheduled + 1 ∧ next.myTasklet.pending = true) : Accounts next := by
  have atMost := accounts.atMost
  have served := accounts.served
  refine ⟨counter, fun other member counts => ?_, ?_, ?_, fun total told => absurd told (silent total)⟩
  · rcases moved.own other member with before | rfl
    · exact accounts.own other before counts
    · exact here counts
  · rcases pending with ⟨scheduled, same⟩ | ⟨scheduled, now⟩
    · rw [executions, scheduled, same]
      exact atMost
    · rw [executions, scheduled, now, Bool.toNat_true]
      omega
  · rcases pending with ⟨scheduled, same⟩ | ⟨scheduled, now⟩
    · rw [executions, scheduled, same]
      exact served
    · rw [now, Bool.toNat_true]
      omega

/-- Two interrupts before the softirq share one run; both are counted. -/
example : (run step initial ([.module true, .module true, .module true, .deliver 1, .deliver 1] ++
    List.replicate 3 (.handle 0) ++ List.replicate 3 (.handle 1) ++ List.replicate 3 .softirq)).map
      (fun state => (state.scheduled, state.executions, state.irqCounter)) = some (2, 1, 2) := by
  decide

end LearnK.Tasklet
