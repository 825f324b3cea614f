import LearnK.Lib.StepMachine
import LearnK.Lib.Numbered

/-!
The work FIFO (`thread/fifo.c`): any number of `enqueue` calls, the thread of the workqueue that
runs `work_handler`, and `workfifo_exit`, interleaved statement by statement.
-/

namespace LearnK.WorkFifo

def fifoSize : Nat := 10

inductive EnqueuePc
  | lock
  | testFull
  | kmalloc
  | fill (item : Nat)
  | store (item : Nat)
  | advance (item : Nat)
  | queueWork (item : Nat)
  | unlock (ret : Int)
  | returned (ret : Int)
  deriving DecidableEq, Repr

/-- `unprocessed` is how many items were waiting for `work_handler` at the test for a full ring. -/
structure Call where
  data : Int32
  pc : EnqueuePc
  unprocessed : Nat
  deriving DecidableEq, Repr

inductive WorkerPc
  | idle
  | print (item : Nat)
  | kfree (item : Nat)
  deriving DecidableEq, Repr

inductive ExitPc
  | unloaded
  | flush
  | destroy
  | lock
  | test
  | take
  | advance (item : Option Nat)
  | kfree (item : Option Nat)
  | unlock
  | done
  deriving DecidableEq, Repr

inductive Holder
  | call (self : Nat)
  | exit
  deriving DecidableEq, Repr

/-- The statics of the module, the calls made so far, and a record of the items that entered the
ring, of those `work_handler` has dealt with and of every `kfree`. -/
structure State where
  fifo : Nat → Option Nat
  fifoHead : Nat
  fifoTail : Nat
  fifoLock : Option Holder
  workqueue : List Nat
  calls : List Call
  worker : WorkerPc
  exit : ExitPc
  allocated : Nat
  data : Nat → Int32
  printed : List Int32
  accepted : List Nat
  processed : List Nat
  freed : List Nat

def initial : State :=
  ⟨fun _ => none, 0, 0, none, [], [], .idle, .unloaded, 0, fun _ => 0, [], [], [], []⟩

inductive Action
  | enqueue (data : Int32)
  | run (self : Nat) (allocates : Bool)
  | work
  | exit
  deriving DecidableEq, Repr

def State.goto (state : State) (self : Nat) (call : Call) (pc : EnqueuePc) : State :=
  { state with calls := state.calls.set self { call with pc := pc } }

def State.unprocessed (state : State) : Nat :=
  (state.accepted.filter fun item => !state.processed.contains item).length

def enqueueStep (self : Nat) (allocates : Bool) (call : Call) (state : State) : Option State :=
  match call.pc with
  | .lock =>
      if state.fifoLock = none then
        some { state.goto self call .testFull with fifoLock := some (.call self) }
      else none
  | .testFull =>
      let asked := { call with unprocessed := state.unprocessed }
      if (state.fifoTail + 1) % fifoSize = state.fifoHead then
        some (state.goto self asked (.unlock (-1)))
      else some (state.goto self asked .kmalloc)
  | .kmalloc =>
      if allocates then
        some { state.goto self call (.fill state.allocated) with allocated := state.allocated + 1 }
      else some (state.goto self call (.unlock (-1)))
  | .fill item =>
      some { state.goto self call (.store item) with
        data := fun other => if other = item then call.data else state.data other }
  | .store item =>
      some { state.goto self call (.advance item) with
        fifo := fun slot => if slot = state.fifoTail then some item else state.fifo slot }
  | .advance item =>
      some { state.goto self call (.queueWork item) with
        fifoTail := (state.fifoTail + 1) % fifoSize
        accepted := state.accepted ++ [item] }
  | .queueWork item =>
      some { state.goto self call (.unlock 0) with workqueue := state.workqueue ++ [item] }
  | .unlock ret => some { state.goto self call (.returned ret) with fifoLock := none }
  | .returned _ => none

def workStep (state : State) : Option State :=
  match state.worker with
  | .idle =>
      match state.workqueue with
      | [] => none
      | item :: rest => some { state with worker := .print item, workqueue := rest }
  | .print item =>
      some { state with worker := .kfree item, printed := state.printed ++ [state.data item] }
  | .kfree item =>
      some { state with
        worker := .idle
        freed := state.freed ++ [item]
        processed := state.processed ++ [item] }

def EnqueuePc.isReturned : EnqueuePc → Bool
  | .returned _ => true
  | _ => false

/-- The module is unloaded when no call is in it any more. -/
def exitStep (state : State) : Option State :=
  match state.exit with
  | .unloaded =>
      if state.calls.all fun call => call.pc.isReturned then some { state with exit := .flush }
      else none
  | .flush =>
      if state.workqueue = [] ∧ state.worker = .idle then some { state with exit := .destroy }
      else none
  | .destroy => some { state with exit := .lock }
  | .lock =>
      if state.fifoLock = none then some { state with exit := .test, fifoLock := some .exit }
      else none
  | .test =>
      some { state with exit := if state.fifoHead ≠ state.fifoTail then .take else .unlock }
  | .take => some { state with exit := .advance (state.fifo state.fifoHead) }
  | .advance item =>
      some { state with exit := .kfree item, fifoHead := (state.fifoHead + 1) % fifoSize }
  | .kfree item => some { state with exit := .test, freed := state.freed ++ item.toList }
  | .unlock => some { state with exit := .done, fifoLock := none }
  | .done => none

/-- `enqueue` is called only before `workfifo_exit`. -/
def step (state : State) : Action → Option State
  | .enqueue data =>
      if state.exit = .unloaded then
        some { state with calls := state.calls ++ [⟨data, .lock, 0⟩] }
      else none
  | .run self allocates => state.calls[self]?.bind fun call => enqueueStep self allocates call state
  | .work => workStep state
  | .exit => exitStep state

def State.window (state : State) : List Nat :=
  (List.range ((state.fifoTail + fifoSize - state.fifoHead) % fifoSize)).map fun offset =>
    (state.fifoHead + offset) % fifoSize

end LearnK.WorkFifo
