import LearnK.Lib.StepMachine
import LearnK.Lib.ByteMemory
import LearnK.Lib.CInt

/-!
The cdev memory device (`cdev/main.c`): one buffer of `HELLODEV_SIZE` bytes behind any
number of open files.  Positions are `loff_t`, `p` is an `unsigned long`, `count` an
`unsigned int`, and the conversions between them are kept.
-/

namespace LearnK.Cdev

open ByteMemory CInt

def hellodevSize : Nat := 0x1000

def memClear : Nat := 0x1

def efault : Int := 14
def einval : Int := 22

structure Outcome where
  ret : Int
  ppos : Int
  data : List UInt8
  deriving DecidableEq, Repr

def clampCount (size : Nat) (p : Int) : Nat :=
  let count := toU32 size
  (if count > toU64 (hellodevSize - p) then toU64 (hellodevSize - p) else count).toNat

/-- `copied` is how many bytes `copy_to_user` manages; it returns `count - copied`. -/
def helloRead (mem : Nat → UInt8) (size copied : Nat) (ppos : Int) : Outcome :=
  let p := toU64 ppos
  if p ≥ hellodevSize then ⟨0, ppos, []⟩
  else
    let count := clampCount size p
    if count - copied ≠ 0 then ⟨-efault, ppos, slice mem p.toNat copied⟩
    else ⟨count, toS64 (ppos + count), slice mem p.toNat count⟩

/-- A `copy_from_user` that stops after `copied` bytes zero-fills the rest of the destination. -/
def helloWrite (mem buf : Nat → UInt8) (size copied : Nat) (ppos : Int) : (Nat → UInt8) × Outcome :=
  let p := toU64 ppos
  if p ≥ hellodevSize then (mem, ⟨0, ppos, []⟩)
  else
    let count := clampCount size p
    let stored := blit mem p.toNat
      ((slice buf 0 count).take copied ++ List.replicate (count - copied) 0)
    if count - copied ≠ 0 then (stored, ⟨-efault, ppos, []⟩)
    else (stored, ⟨count, toS64 (ppos + count), []⟩)

def helloLlseek (fpos offset orig : Int) : Int × Int :=
  if orig = 0 then
    if offset < 0 then (-einval, fpos)
    else if toU32 offset > hellodevSize then (-einval, fpos)
    else (toU32 offset, toU32 offset)
  else if orig = 1 then
    if toS64 (fpos + offset) > hellodevSize then (-einval, fpos)
    else if toS64 (fpos + offset) < 0 then (-einval, fpos)
    else (toS64 (fpos + offset), toS64 (fpos + offset))
  else (-einval, fpos)

def helloIoctl (mem : Nat → UInt8) (cmd : Nat) : (Nat → UInt8) × Int :=
  if cmd = memClear then (blit mem 0 (List.replicate hellodevSize 0), 0) else (mem, -einval)

inductive Position
  | own (file : Nat)
  | explicit (pos : Int)

inductive Call
  | read (position : Position) (size copied : Nat)
  | write (position : Position) (buf : Nat → UInt8) (size copied : Nat)
  | llseek (file : Nat) (offset orig : Int)
  | ioctl (cmd : Nat)

inductive FileEvent
  | wrote (start : Nat) (bytes : List UInt8)
  | cleared

structure State where
  mem : Nat → UInt8
  fpos : Nat → Int
  history : List FileEvent

def initial : State := ⟨fun _ => 0, fun _ => 0, []⟩

def State.seek (state : State) (file : Nat) (value : Int) : State :=
  { state with fpos := fun other => if other = file then value else state.fpos other }

def Position.get (state : State) : Position → Int
  | .own file => state.fpos file
  | .explicit pos => pos

def Position.put (state : State) (value : Int) : Position → State
  | .own file => state.seek file value
  | .explicit _ => state

def perform (state : State) : Call → State × Outcome
  | .read position size copied =>
      let outcome := helloRead state.mem size copied (position.get state)
      (position.put state outcome.ppos, outcome)
  | .write position buf size copied =>
      let (mem, outcome) := helloWrite state.mem buf size copied (position.get state)
      let event := FileEvent.wrote (position.get state).toNat (slice buf 0 outcome.ret.toNat)
      (position.put ⟨mem, state.fpos, event :: state.history⟩ outcome.ppos, outcome)
  | .llseek file offset orig =>
      let (ret, fpos) := helloLlseek (state.fpos file) offset orig
      (state.seek file fpos, ⟨ret, fpos, []⟩)
  | .ioctl cmd =>
      let (mem, ret) := helloIoctl state.mem cmd
      (⟨mem, state.fpos, .cleared :: state.history⟩, ⟨ret, 0, []⟩)

/-- The calls of a run succeed: a negative return value ends it. -/
def step (state : State) (call : Call) : Option State :=
  if (perform state call).2.ret < 0 then none else some (perform state call).1

end LearnK.Cdev
