import LearnK.Lib.StepMachine
import LearnK.Lib.Numbered

/-!
The mount hook (`ftrace/main.c`): any number of tasks that call `path_mount`, each with its stack
of calls, and the loading and unloading of the module.  The traced entry of `path_mount` runs
`ftrace_callback_handler` first and goes on at `regs->ip`.
-/

namespace LearnK.Ftrace

def enomem : Int32 := 12
def einval : Int := 22

structure MountArgs where
  devName : UInt64
  path : UInt64
  typePage : UInt64
  flags : UInt64
  dataPage : UInt64
  deriving DecidableEq, Repr

inductive Parent
  | outside
  | thisModule
  deriving DecidableEq, Repr

def dattobdWithinModule (parent : Parent) : Bool := parent == .thisModule

inductive RegsIp
  | original
  | function
  deriving DecidableEq, Repr

inductive PathPc
  | entry
  | callback
  | resume (ip : RegsIp)
  | body
  deriving DecidableEq, Repr

inductive HookPc
  | kmalloc
  | dPath
  | callOrig
  | waiting
  | testRet (sysRet : Int32)
  | kfree (sysRet : Int32)
  | leave (ret : Int32)
  deriving DecidableEq, Repr

inductive Frame
  | pathMount (parent : Parent) (args : MountArgs) (pc : PathPc)
  | ftracePathMount (args : MountArgs) (pc : HookPc)
  deriving DecidableEq, Repr

structure Task where
  stack : List Frame
  result : Option Int32
  deriving DecidableEq, Repr

def Task.goto (frame : Frame) (below : List Frame) : Task := ⟨frame :: below, none⟩

def Task.returnTo (ret : Int32) : List Frame → Task
  | [] => ⟨[], some ret⟩
  | .ftracePathMount args .waiting :: below => .goto (.ftracePathMount args (.testRet ret)) below
  | below => ⟨below, none⟩

/-- `ftrace_callback_handler` redirects the calls that do not come from this module. -/
def ftraceCallbackHandler (parent : Parent) : RegsIp :=
  if !dattobdWithinModule parent then .function else .original

/-- `armed` says whether the hook is registered at the entry, `ret` is what the original returns. -/
def pathMount (armed : Bool) (ret : Int32) (parent : Parent) (args : MountArgs) (below : List Frame) :
    PathPc → Task
  | .entry => .goto (.pathMount parent args (if armed then .callback else .body)) below
  | .callback => .goto (.pathMount parent args (.resume (ftraceCallbackHandler parent))) below
  | .resume .function => .goto (.ftracePathMount args .kmalloc) below
  | .resume .original => .goto (.pathMount parent args .body) below
  | .body => .returnTo ret below

/-- `buf` is 0 where the `kmalloc` fails. -/
def ftracePathMount (buf : Int32) (args : MountArgs) (below : List Frame) : HookPc → Option Task
  | .kmalloc =>
      if buf = 0 then some (.goto (.ftracePathMount args (.leave (-enomem))) below)
      else some (.goto (.ftracePathMount args .dPath) below)
  | .dPath => some (.goto (.ftracePathMount args .callOrig) below)
  | .callOrig =>
      some (.goto (.pathMount .thisModule args .entry) (.ftracePathMount args .waiting :: below))
  | .waiting => none
  | .testRet sysRet => some (.goto (.ftracePathMount args (.kfree sysRet)) below)
  | .kfree sysRet => some (.goto (.ftracePathMount args (.leave sysRet)) below)
  | .leave ret => some (.returnTo ret below)

def taskStep (armed : Bool) (answer : Int32) (task : Task) : Option Task :=
  match task.stack with
  | [] => none
  | .pathMount parent args pc :: below => some (pathMount armed answer parent args below pc)
  | .ftracePathMount args pc :: below => ftracePathMount answer args below pc

/-- The body of `path_mount` may itself cause a further call from outside the module. -/
def nestCall (args : MountArgs) (task : Task) : Option Task :=
  match task.stack with
  | .pathMount parent outer .body :: below =>
      some (.goto (.pathMount .outside args .entry) (.pathMount parent outer .body :: below))
  | _ => none

/-- The next statement of `__ftrace_init` with its `register_hook`, then of `__ftrace_exit` with its
`unregister_hook`.  `unregister_ftrace_function` first takes the hook off the entry and then waits
for the callbacks that are running. -/
inductive ModulePc
  | resolveAddress
  | setFilter
  | registerFunction
  | undoFilter
  | initReturned (ret : Int)
  | unregisterFunction
  | synchronize
  | removeFilter
  | printUnloaded
  | exitReturned
  deriving DecidableEq, Repr

structure State where
  tasks : List Task
  armed : Bool
  module : ModulePc
  deriving DecidableEq, Repr

def initial : State := ⟨[], false, .resolveAddress⟩

def Frame.inCallback : Frame → Bool
  | .pathMount _ _ .callback | .pathMount _ _ (.resume _) => true
  | _ => false

def Frame.inHook : Frame → Bool
  | .ftracePathMount _ _ => true
  | .pathMount _ _ _ => false

def Task.inModule (task : Task) : Bool :=
  match task.stack with
  | .pathMount _ _ .callback :: _ | .ftracePathMount _ _ :: _ => true
  | _ => false

def State.noFrame (state : State) (which : Frame → Bool) : Bool :=
  state.tasks.all fun task => task.stack.all fun frame => !which frame

/-- `ret` is what the kernel function of the statement returns.  The filter decides which other
functions are traced: `path_mount` is in it, and an empty one lets every function through. -/
def moduleStep (ret : Int) (state : State) : Option State :=
  match state.module with
  | .resolveAddress =>
      if ret < 0 then some { state with module := .initReturned (-einval) }
      else some { state with module := .setFilter }
  | .setFilter =>
      if ret ≠ 0 then some { state with module := .initReturned (-einval) }
      else some { state with module := .registerFunction }
  | .registerFunction =>
      if ret ≠ 0 then some { state with module := .undoFilter }
      else some { state with module := .initReturned 0, armed := true }
  | .undoFilter => some { state with module := .initReturned (-einval) }
  | .initReturned code => if code = 0 then some { state with module := .unregisterFunction } else none
  | .unregisterFunction =>
      if ret ≠ 0 then some { state with module := .removeFilter }
      else some { state with module := .synchronize, armed := false }
  | .synchronize =>
      if state.noFrame Frame.inCallback then some { state with module := .removeFilter } else none
  | .removeFilter => some { state with module := .printUnloaded }
  | .printUnloaded => some { state with module := .exitReturned }
  | .exitReturned => none

inductive Action
  | mount (args : MountArgs)
  | nest (self : Nat) (args : MountArgs)
  | run (self : Nat) (answer : Int32)
  | module (ret : Int)
  deriving DecidableEq, Repr

def State.moveTask (state : State) (self : Nat) (move : Task → Option Task) : Option State :=
  state.tasks[self]?.bind fun task => (move task).map fun next =>
    { state with tasks := state.tasks.set self next }

def State.runTask (state : State) (answer : Int32) (task : Task) : Option Task :=
  if state.module = .exitReturned ∧ task.inModule = true then none else taskStep state.armed answer task

def step (state : State) : Action → Option State
  | .mount args =>
      some { state with tasks := state.tasks ++ [.goto (.pathMount .outside args .entry) []] }
  | .nest self args => state.moveTask self (nestCall args)
  | .run self answer => state.moveTask self (state.runTask answer)
  | .module ret => moduleStep ret state

end LearnK.Ftrace
