import LearnK.Lib.StepMachine
import LearnK.Lib.Numbered

/-!
The tasklet demo (`tasklet/main.c`): any number of `irq_handler` runs, the softirq that executes
`my_tasklet`, and the loading and unloading of the module, interleaved statement by statement.
-/

namespace LearnK.Tasklet

def irqNum : Int32 := 1

def eio : Int := 5

inductive IrqReturn
  | irqNone
  | irqHandled
  deriving DecidableEq, Repr

inductive IrqPc
  | test
  | count
  | schedule
  | returned (ret : IrqReturn)
  deriving DecidableEq, Repr

structure Handler where
  irq : Int32
  pc : IrqPc
  deriving DecidableEq, Repr

inductive TaskletPc
  | printk
  | mdelay
  deriving DecidableEq, Repr

/-- `pending` and `running` are the two state bits; a tasklet runs on one processor at a time. -/
structure TaskletStruct where
  pending : Bool
  running : Option TaskletPc
  data : UInt64
  deriving DecidableEq, Repr

def TaskletStruct.zeroed : TaskletStruct := ⟨false, none, 0⟩

def taskletInit (data : UInt64) : TaskletStruct := ⟨false, none, data⟩

def taskletSchedule (tasklet : TaskletStruct) : TaskletStruct := { tasklet with pending := true }

/-- The next statement of `tasklet_demo_init`, then of `tasklet_demo_exit`.  `free_irq` first takes
the handler off the line and then waits for the handlers that are running. -/
inductive ModulePc
  | taskletInit
  | requestIrq
  | printFailed
  | printLoaded
  | initReturned (ret : Int)
  | taskletKill
  | freeIrq
  | synchronizeIrq
  | printUnloaded
  | exitReturned
  deriving DecidableEq, Repr

inductive Message
  | failed (irq : Int32)
  | loaded
  | running (data : UInt64)
  | unloaded (total : Int32)
  deriving DecidableEq, Repr

/-- `registered` says whether `irq_handler` is on the interrupt line. -/
structure State where
  myTasklet : TaskletStruct
  irqCounter : Int32
  registered : Bool
  handlers : List Handler
  module : ModulePc
  log : List Message
  deriving DecidableEq, Repr

def initial : State := ⟨TaskletStruct.zeroed, 0, false, [], .taskletInit, []⟩

inductive Action
  | deliver (irq : Int32)
  | handle (self : Nat)
  | softirq
  | module (granted : Bool)
  deriving DecidableEq, Repr

def State.goto (state : State) (self : Nat) (handler : Handler) (pc : IrqPc) : State :=
  { state with handlers := state.handlers.set self { handler with pc := pc } }

def irqHandler (self : Nat) (handler : Handler) (state : State) : Option State :=
  match handler.pc with
  | .test =>
      if handler.irq ≠ irqNum then some (state.goto self handler (.returned .irqNone))
      else some (state.goto self handler .count)
  | .count =>
      some { state.goto self handler .schedule with irqCounter := state.irqCounter + 1 }
  | .schedule =>
      some { state.goto self handler (.returned .irqHandled) with
        myTasklet := taskletSchedule state.myTasklet }
  | .returned _ => none

/-- The softirq takes up a pending tasklet and runs `my_tasklet_handler`. -/
def myTaskletHandler (state : State) : Option State :=
  match state.myTasklet.running with
  | none =>
      if state.myTasklet.pending then
        some { state with
          myTasklet := { state.myTasklet with pending := false, running := some .printk } }
      else none
  | some .printk =>
      some { state with
        myTasklet := { state.myTasklet with running := some .mdelay }
        log := state.log ++ [.running state.myTasklet.data] }
  | some .mdelay => some { state with myTasklet := { state.myTasklet with running := none } }

def IrqPc.isReturned : IrqPc → Bool
  | .returned _ => true
  | _ => false

def State.noHandler (state : State) : Bool := state.handlers.all fun handler => handler.pc.isReturned

/-- `tasklet_kill` returns when the tasklet is neither pending nor running, `free_irq` when no
handler runs. -/
def moduleStep (granted : Bool) (state : State) : Option State :=
  match state.module with
  | .taskletInit => some { state with module := .requestIrq, myTasklet := taskletInit 0x1234 }
  | .requestIrq =>
      if granted then some { state with module := .printLoaded, registered := true }
      else some { state with module := .printFailed }
  | .printFailed =>
      some { state with module := .initReturned (-eio), log := state.log ++ [.failed irqNum] }
  | .printLoaded => some { state with module := .initReturned 0, log := state.log ++ [.loaded] }
  | .initReturned ret => if ret = 0 then some { state with module := .taskletKill } else none
  | .taskletKill =>
      if state.myTasklet.pending = false ∧ state.myTasklet.running = none then
        some { state with module := .freeIrq }
      else none
  | .freeIrq => some { state with module := .synchronizeIrq, registered := false }
  | .synchronizeIrq => if state.noHandler then some { state with module := .printUnloaded } else none
  | .printUnloaded =>
      some { state with module := .exitReturned, log := state.log ++ [.unloaded state.irqCounter] }
  | .exitReturned => none

def step (state : State) : Action → Option State
  | .deliver irq =>
      if state.registered then some { state with handlers := state.handlers ++ [⟨irq, .test⟩] }
      else none
  | .handle self => state.handlers[self]?.bind fun handler => irqHandler self handler state
  | .softirq => myTaskletHandler state
  | .module granted => moduleStep granted state

end LearnK.Tasklet
