import LearnK.Lib.StepMachine
import LearnK.Lib.ByteMemory
import LearnK.Lib.CInt

/-!
The globalfifo character device (`globalfifo/main.c`) as a step machine.  Every task
runs its file operation statement by statement, any number of tasks interleave, and
the mutex, the task states and the two wait queues are explicit.  Waking, signals and
the outcome of the user copies are the scheduler's choice.
-/

namespace LearnK.GlobalFifo

open ByteMemory CInt

def hellodevSize : Nat := 0x1000

def memClear : Nat := 0x1

def eagain : Int := 11
def efault : Int := 14
def einval : Int := 22
def erestartsys : Int := 512

inductive WaitQueue
  | rWait
  | wWait
  deriving DecidableEq, Repr

inductive TaskState
  | running
  | interruptible
  deriving DecidableEq, Repr

/-- `mem` is the memory from `dev->mem` on; that no index reaches `hellodevSize` is proved. -/
structure HelloDev where
  currentLen : Nat
  mem : Nat → UInt8
  mutex : Option Nat
  rWait : List Nat
  wWait : List Nat

def HelloDev.zeroed : HelloDev where
  currentLen := 0
  mem := fun _ => 0
  mutex := none
  rWait := []
  wWait := []

def HelloDev.queue (dev : HelloDev) : WaitQueue → List Nat
  | .rWait => dev.rWait
  | .wWait => dev.wWait

def addWaitQueue (dev : HelloDev) (task : Nat) : WaitQueue → HelloDev
  | .rWait => { dev with rWait := task :: dev.rWait }
  | .wWait => { dev with wWait := task :: dev.wWait }

/-- `remove_wait_queue` unlinks the entry from the list it is linked in, whichever queue it is
given; the queue only names the lock that is taken, which the event log records. -/
def removeWaitQueue (dev : HelloDev) (task : Nat) : HelloDev :=
  { dev with rWait := dev.rWait.erase task, wWait := dev.wWait.erase task }

structure Call where
  nonblock : Bool
  buf : Nat → UInt8
  count : Nat

inductive Event
  | access (start length : Nat)
  | accepted (bytes : List UInt8)
  | delivered (bytes : List UInt8)
  | cleared
  | waitAdded (task : Nat) (queue : WaitQueue)
  | waitRemoved (task : Nat) (queue : WaitQueue)
  | returned (task : Nat) (ret : Int)
  deriving DecidableEq, Repr

inductive Pc
  | lock
  | addWait
  | test
  | setState
  | unlockLoop
  | schedule
  | signal
  | relock
  | copy
  | update (count : Nat) (data : List UInt8)
  | wake (count : Nat)
  | out (ret : Int)
  | out2 (ret : Int)
  | leave (ret : Int)
  deriving DecidableEq, Repr

inductive Kind
  | read
  | write
  deriving DecidableEq, Repr

inductive IoctlPc
  | lock
  | clear
  | unlock
  | leave (ret : Int)
  deriving DecidableEq, Repr

inductive PollPc
  | lock
  | mask
  | relock (mask : Nat)
  | leave (mask : Nat)
  deriving DecidableEq, Repr

inductive Activity
  | idle
  | transfer (kind : Kind) (call : Call) (pc : Pc)
  | ioctl (pc : IoctlPc)
  | poll (pc : PollPc)

structure Task where
  activity : Activity
  state : TaskState
  sigPending : Bool

def Task.fresh : Task := ⟨.idle, .running, false⟩

def Task.goto (task : Task) (kind : Kind) (call : Call) (pc : Pc) : Task :=
  { task with activity := .transfer kind call pc }

def Task.finish (task : Task) : Task := ⟨.idle, task.state, false⟩

structure Effect where
  dev : HelloDev
  task : Task
  events : List Event := []
  wakes : Option WaitQueue := none

structure Transfer where
  joins : WaitQueue
  mustWait : Nat → Bool
  clamp : Nat → Nat → Nat
  copy : HelloDev → Call → Nat → Nat → HelloDev × List Event
  data : HelloDev → Call → Nat → List UInt8
  update : HelloDev → Nat → List UInt8 → HelloDev × List Event
  wakes : WaitQueue
  removes : WaitQueue

def helloRead : Transfer where
  joins := .rWait
  mustWait currentLen := currentLen == 0
  clamp count currentLen := if count > currentLen then currentLen else count
  copy dev _ count _ := (dev, [.access 0 count])
  data dev _ count := slice dev.mem 0 count
  update dev count data :=
    ({ dev with
        mem := copyForward dev.mem 0 count (dev.currentLen - count)
        currentLen := dev.currentLen - count },
      [.access count (dev.currentLen - count), .access 0 (dev.currentLen - count),
        .delivered data])
  wakes := .wWait
  removes := .wWait

/-- `copy_from_user` that stops after `copied` bytes zero-fills the rest of the destination. -/
def helloWrite : Transfer where
  joins := .wWait
  mustWait currentLen := currentLen == hellodevSize
  clamp count currentLen :=
    if count > hellodevSize - currentLen then hellodevSize - currentLen else count
  copy dev call count copied :=
    ({ dev with
        mem := blit dev.mem dev.currentLen
          ((slice call.buf 0 count).take copied ++ List.replicate (count - copied) 0) },
      [.access dev.currentLen count])
  data _ call count := slice call.buf 0 count
  update dev count data := ({ dev with currentLen := dev.currentLen + count }, [.accepted data])
  wakes := .rWait
  removes := .wWait

def Kind.ops : Kind → Transfer
  | .read => helloRead
  | .write => helloWrite

def mutexLock (dev : HelloDev) (self : Nat) : Option HelloDev :=
  match dev.mutex with
  | none => some { dev with mutex := some self }
  | some _ => none

def mutexUnlock (dev : HelloDev) : HelloDev := { dev with mutex := none }

/-- One statement of `hello_read` or `hello_write`; `copied` is how many bytes the user copy
manages, so `copy_to_user` and `copy_from_user` return `count - copied`. -/
def transferStep (kind : Kind) (call : Call) (self copied : Nat) (dev : HelloDev) (task : Task) :
    Pc → Option Effect
  | .lock => (mutexLock dev self).map fun locked => ⟨locked, task.goto kind call .addWait, [], none⟩
  | .addWait => some ⟨addWaitQueue dev self kind.ops.joins, task.goto kind call .test,
      [.waitAdded self kind.ops.joins], none⟩
  | .test =>
      if kind.ops.mustWait dev.currentLen then
        if call.nonblock then some ⟨dev, task.goto kind call (.out (-eagain)), [], none⟩
        else some ⟨dev, task.goto kind call .setState, [], none⟩
      else some ⟨dev, task.goto kind call .copy, [], none⟩
  | .setState => some ⟨dev, { task with state := .interruptible }.goto kind call .unlockLoop, [], none⟩
  | .unlockLoop => some ⟨mutexUnlock dev, task.goto kind call .schedule, [], none⟩
  | .schedule =>
      if task.state = .interruptible ∧ task.sigPending = false then none
      else some ⟨dev, { task with state := .running }.goto kind call .signal, [], none⟩
  | .signal =>
      if task.sigPending then some ⟨dev, task.goto kind call (.out2 (-erestartsys)), [], none⟩
      else some ⟨dev, task.goto kind call .relock, [], none⟩
  | .relock => (mutexLock dev self).map fun locked => ⟨locked, task.goto kind call .test, [], none⟩
  | .copy =>
      let count := kind.ops.clamp call.count dev.currentLen
      let result := kind.ops.copy dev call count copied
      if count - copied ≠ 0 then
        some ⟨result.1, task.goto kind call (.out (-efault)), result.2, none⟩
      else
        some ⟨result.1, task.goto kind call (.update count (kind.ops.data dev call count)),
          result.2, none⟩
  | .update count data =>
      let result := kind.ops.update dev count data
      some ⟨result.1, task.goto kind call (.wake count), result.2, none⟩
  | .wake count => some ⟨dev, task.goto kind call (.out count), [], some kind.ops.wakes⟩
  | .out ret => some ⟨mutexUnlock dev, task.goto kind call (.out2 ret), [], none⟩
  | .out2 ret => some ⟨removeWaitQueue dev self, task.goto kind call (.leave ret),
      [.waitRemoved self kind.ops.removes], none⟩
  | .leave ret => some ⟨dev, { task with state := .running }.finish, [.returned self ret], none⟩

def helloIoctlStep (self : Nat) (dev : HelloDev) (task : Task) : IoctlPc → Option Effect
  | .lock => (mutexLock dev self).map fun locked =>
      ⟨locked, { task with activity := .ioctl .clear }, [], none⟩
  | .clear => some ⟨{ dev with mem := blit dev.mem 0 (List.replicate hellodevSize 0) },
      { task with activity := .ioctl .unlock }, [.access 0 hellodevSize, .cleared], none⟩
  | .unlock => some ⟨mutexUnlock dev, { task with activity := .ioctl (.leave 0) }, [], none⟩
  | .leave ret => some ⟨dev, task.finish, [.returned self ret], none⟩

def pollMask (currentLen : Nat) : Nat :=
  (if currentLen ≠ 0 then 0x001 ||| 0x040 else 0) |||
    (if currentLen ≠ hellodevSize then 0x004 ||| 0x100 else 0)

/-- `hello_poll` ends with a second `mutex_lock`.  `poll_wait` registers entries of the poll
table, which are no task's sleep, so the queues here leave them out. -/
def helloPollStep (self : Nat) (dev : HelloDev) (task : Task) : PollPc → Option Effect
  | .lock => (mutexLock dev self).map fun locked =>
      ⟨locked, { task with activity := .poll .mask }, [], none⟩
  | .mask => some ⟨dev, { task with activity := .poll (.relock (pollMask dev.currentLen)) }, [], none⟩
  | .relock mask => (mutexLock dev self).map fun locked =>
      ⟨locked, { task with activity := .poll (.leave mask) }, [], none⟩
  | .leave mask => some ⟨dev, task.finish, [.returned self mask], none⟩

/-- `hello_llseek` moves `f_pos`, which no other operation of this device looks at. -/
def helloLlseek (fpos offset orig : Int) : Int × Int :=
  if orig = 0 then
    if offset < 0 then (-einval, fpos)
    else if toU32 offset > hellodevSize then (-einval, fpos)
    else (toU32 offset, toU32 offset)
  else if orig = 1 then
    if toS64 (fpos + offset) > hellodevSize then (-einval, fpos)
    else if toS64 (fpos + offset) < 0 then (-einval, fpos)
    else (toS64 (fpos + offset), toS64 (fpos + offset))
  else (-einval, fpos)

def taskStep (self copied : Nat) (dev : HelloDev) (task : Task) : Option Effect :=
  match task.activity with
  | .idle => none
  | .transfer kind call pc => transferStep kind call self copied dev task pc
  | .ioctl pc => helloIoctlStep self dev task pc
  | .poll pc => helloPollStep self dev task pc

structure State where
  dev : HelloDev
  tasks : Nat → Task
  events : List Event

def initial : State := ⟨HelloDev.zeroed, fun _ => Task.fresh, []⟩

def wakeUp (dev : HelloDev) (wakes : Option WaitQueue) (id : Nat) (task : Task) : Task :=
  match wakes with
  | none => task
  | some queue => if id ∈ dev.queue queue then { task with state := .running } else task

def State.apply (state : State) (self : Nat) (effect : Effect) : State where
  dev := effect.dev
  tasks id := if id = self then effect.task
    else wakeUp state.dev effect.wakes id (state.tasks id)
  events := state.events ++ effect.events

inductive Operation
  | read (call : Call)
  | write (call : Call)
  | ioctl (cmd : Nat)
  | poll

def Operation.start : Operation → Activity
  | .read call => .transfer .read call .lock
  | .write call => .transfer .write call .lock
  | .ioctl cmd => .ioctl (if cmd = memClear then .lock else .leave (-einval))
  | .poll => .poll .lock

/-- The scheduler lets an idle task enter an operation, delivers a signal, or runs the next
statement of a task. -/
inductive Action
  | enter (task : Nat) (operation : Operation)
  | signal (task : Nat)
  | run (task copied : Nat)

def State.setTask (state : State) (self : Nat) (task : Task) : State :=
  { state with tasks := fun id => if id = self then task else state.tasks id }

def step (state : State) : Action → Option State
  | .enter self operation =>
      match (state.tasks self).activity with
      | .idle => some (state.setTask self { state.tasks self with activity := operation.start })
      | _ => none
  | .signal self => some (state.setTask self
      { state.tasks self with state := .running, sigPending := true })
  | .run self copied =>
      (taskStep self copied state.dev (state.tasks self)).map (state.apply self)

end LearnK.GlobalFifo
