import LearnK.Timers.Core

/-!
The thread demo (`thread/main.c`): a kernel thread that prints once a second, a workqueue with one work
item, and the loading and unloading of the module, interleaved statement by statement.
-/

namespace LearnK.Thread

open Timers

def enomem : Int := 12

inductive ThreadPc
  | created
  | shouldStop
  | printk
  | msleep
  | sleeping (wake : Nat)
  | exited
  deriving DecidableEq, Repr

structure TaskStruct where
  pc : ThreadPc
  stop : Bool
  deriving DecidableEq, Repr

def TaskStruct.setStop (task : TaskStruct) : TaskStruct := { task with stop := true }

inductive Work
  | idle
  | pending
  | running
  deriving DecidableEq, Repr

inductive ModulePc
  | createWorkqueue
  | printNoWorkqueue
  | queueWork
  | kthreadRun
  | destroyFailed (error : Int)
  | printNoThread (error : Int)
  | initReturned (ret : Int)
  | testTask
  | kthreadStop
  | waitStopped
  | printStopped
  | testWorkqueue
  | flushWorkqueue
  | destroyWorkqueue
  | printDestroyed
  | exitReturned
  deriving DecidableEq, Repr

inductive Message
  | noWorkqueue
  | noThread
  | threadRunning (time : Nat)
  | workRunning
  | stopped
  | destroyed
  deriving DecidableEq, Repr

/-- Time is counted in jiffies and does not wrap.  The workqueue is `none` until it is created and
after it is destroyed. -/
structure State where
  now : Nat
  demoTask : Option TaskStruct
  demoWorkqueue : Option Work
  module : ModulePc
  log : List Message
  deriving DecidableEq, Repr

def initial : State := ⟨0, none, none, .createWorkqueue, []⟩

inductive Action
  | elapse (time : Nat)
  | thread
  | work
  | module (answer : Int)
  deriving DecidableEq, Repr

def State.goto (state : State) (pc : ModulePc) : State := { state with module := pc }

def State.say (state : State) (message : Message) : State :=
  { state with log := state.log ++ [message] }

/-- A thread that is told to stop before it is scheduled never enters its function. -/
def threadFunction (jiffies : Jiffies) (state : State) (task : TaskStruct) : Option State :=
  let next (pc : ThreadPc) : State := { state with demoTask := some { task with pc := pc } }
  match task.pc with
  | .created => some (next (if task.stop then .exited else .shouldStop))
  | .shouldStop => some (next (if task.stop then .exited else .printk))
  | .printk => some ((next .msleep).say (.threadRunning state.now))
  | .msleep => some (next (.sleeping (state.now + jiffies.msecsToJiffies 1000)))
  | .sleeping wake => if wake ≤ state.now then some (next .shouldStop) else none
  | .exited => none

def workqueueFunction (state : State) : Option State :=
  match state.demoWorkqueue with
  | some .pending => some { state with demoWorkqueue := some .running }
  | some .running => some ({ state with demoWorkqueue := some .idle }.say .workRunning)
  | _ => none

/-- `flush_workqueue` and `destroy_workqueue` wait for the work, `kthread_stop` for the thread. -/
def moduleStep (answer : Int) (state : State) : Option State :=
  match state.module with
  | .createWorkqueue =>
      if answer < 0 then some (state.goto .printNoWorkqueue)
      else some ({ state with demoWorkqueue := some .idle }.goto .queueWork)
  | .printNoWorkqueue => some ((state.say .noWorkqueue).goto (.initReturned (-enomem)))
  | .queueWork => some ({ state with demoWorkqueue := some .pending }.goto .kthreadRun)
  | .kthreadRun =>
      if answer < 0 then some (state.goto (.destroyFailed answer))
      else some ({ state with demoTask := some ⟨.created, false⟩ }.goto (.initReturned 0))
  | .destroyFailed error =>
      if state.demoWorkqueue = some .idle then
        some ({ state with demoWorkqueue := none }.goto (.printNoThread error))
      else none
  | .printNoThread error => some ((state.say .noThread).goto (.initReturned error))
  | .initReturned ret => if ret = 0 then some (state.goto .testTask) else none
  | .testTask => some (state.goto (if state.demoTask.isSome then .kthreadStop else .testWorkqueue))
  | .kthreadStop =>
      some ({ state with demoTask := state.demoTask.map TaskStruct.setStop }.goto .waitStopped)
  | .waitStopped =>
      if state.demoTask.all (·.pc = .exited) then some (state.goto .printStopped) else none
  | .printStopped => some ((state.say .stopped).goto .testWorkqueue)
  | .testWorkqueue =>
      some (state.goto (if state.demoWorkqueue.isSome then .flushWorkqueue else .exitReturned))
  | .flushWorkqueue =>
      if state.demoWorkqueue = some .idle then some (state.goto .destroyWorkqueue) else none
  | .destroyWorkqueue =>
      if state.demoWorkqueue = some .idle then
        some ({ state with demoWorkqueue := none }.goto .printDestroyed)
      else none
  | .printDestroyed => some ((state.say .destroyed).goto .exitReturned)
  | .exitReturned => none

def step (jiffies : Jiffies) (state : State) : Action → Option State
  | .elapse time => some { state with now := state.now + time }
  | .thread => state.demoTask.bind (threadFunction jiffies state)
  | .work => workqueueFunction state
  | .module answer => moduleStep answer state

end LearnK.Thread
