import LearnK.Lib.StepMachine

/-!
The timer modules (`second/main.c`, `second/hrtimer.c`): the timer core, the callback and the loading
and unloading of the module, interleaved statement by statement.  Time does not wrap; it is counted
in jiffies for the one module and in nanoseconds for the other.
-/

namespace LearnK.Timers

inductive CallbackPc
  | printk
  | forward
  | restart
  deriving DecidableEq, Repr

/-- While `running` is set the timer core is inside the callback and does not take the timer up. -/
structure Timer where
  expires : Nat
  enqueued : Bool
  running : Option CallbackPc
  deriving DecidableEq, Repr

def Timer.zeroed : Timer := ⟨0, false, none⟩

/-- Where the two callbacks differ: how they put the expiry forward, and whether that queues the timer
at once or the return from the callback does. -/
structure Callback where
  interval : Nat
  queuesAtOnce : Bool
  forward : Nat → Nat → Nat

/-- `msecs_to_jiffies` of a kernel that counts `hz` jiffies in a second. -/
structure Jiffies where
  hz : Nat
  msecsToJiffies : Nat → Nat
  roundsUp : ∀ msecs < 2147483648, msecs * hz ≤ msecsToJiffies msecs * 1000

example : Jiffies := ⟨250, fun msecs => (msecs + 3) / 4, fun msecs _ => by omega⟩

theorem Jiffies.second_le (jiffies : Jiffies) : jiffies.hz ≤ jiffies.msecsToJiffies 1000 := by
  have rounded := jiffies.roundsUp 1000 (by decide)
  omega

theorem Jiffies.two_seconds_le (jiffies : Jiffies) : 2 * jiffies.hz ≤ jiffies.msecsToJiffies 2000 := by
  have rounded := jiffies.roundsUp 2000 (by decide)
  omega

def modTimer (jiffies : Jiffies) (now : Nat) : Nat := now + jiffies.msecsToJiffies 2000

def timerCallback (jiffies : Jiffies) : Callback :=
  ⟨jiffies.msecsToJiffies 2000, true, fun now _ => modTimer jiffies now⟩

def ktimeInterval : Nat := 500000000

/-- `hrtimer_forward_now` moves an expiry that is due on by whole intervals, past the present. -/
structure Forwarding where
  hrtimerForwardNow : Nat → Nat → Nat → Nat
  passes : ∀ interval now expires, 0 < interval → expires ≤ now →
    now < hrtimerForwardNow interval now expires
  onGrid : ∀ interval now expires, 0 < interval → expires ≤ now →
    ∃ steps, hrtimerForwardNow interval now expires = expires + (steps + 1) * interval

def hrtimerCallback (forwarding : Forwarding) : Callback :=
  ⟨ktimeInterval, false, forwarding.hrtimerForwardNow ktimeInterval⟩

inductive ModulePc
  | printInit
  | setup
  | start
  | initReturned
  | cancel
  | printUnloaded
  | exitReturned
  deriving DecidableEq, Repr

inductive Message
  | initializing
  | executed (time : Nat)
  | unloaded
  deriving DecidableEq, Repr

/-- A run of the callback: the expiry it was for, when the timer was put to that expiry, and when the
run began. -/
structure Run where
  expires : Nat
  armed : Nat
  began : Nat
  deriving DecidableEq, Repr

/-- The timer was last armed at the time `armed`, first at `started`. -/
structure State where
  now : Nat
  timer : Timer
  module : ModulePc
  log : List Message
  started : Nat
  armed : Nat
  runs : List Run
  deriving DecidableEq, Repr

def initial : State := ⟨0, .zeroed, .printInit, [], 0, 0, []⟩

inductive Action
  | elapse (time : Nat)
  | expire
  | callback
  | module
  deriving DecidableEq, Repr

/-- The timer core takes up a timer that is due, late or not. -/
def expireStep (state : State) : Option State :=
  if state.timer.enqueued = true ∧ state.timer.expires ≤ state.now ∧ state.timer.running = none then
    some { state with
      timer := { state.timer with enqueued := false, running := some .printk }
      runs := state.runs ++ [⟨state.timer.expires, state.armed, state.now⟩] }
  else none

def callbackStep (callback : Callback) (state : State) : Option State :=
  match state.timer.running with
  | none => none
  | some .printk =>
      some { state with
        timer := { state.timer with running := some .forward }
        log := state.log ++ [.executed state.now] }
  | some .forward =>
      some { state with
        armed := state.now
        timer :=
          { expires := callback.forward state.now state.timer.expires
            enqueued := callback.queuesAtOnce
            running := some .restart } }
  | some .restart =>
      some { state with timer :=
        { state.timer with
          enqueued := state.timer.enqueued || !callback.queuesAtOnce
          running := none } }

/-- `del_timer_sync` and `hrtimer_cancel` wait for the callback and take the timer off its queue. -/
def moduleStep (callback : Callback) (state : State) : Option State :=
  match state.module with
  | .printInit => some { state with module := .setup, log := state.log ++ [.initializing] }
  | .setup => some { state with module := .start, timer := .zeroed }
  | .start =>
      some { state with
        module := .initReturned
        started := state.now
        armed := state.now
        timer := { state.timer with expires := state.now + callback.interval, enqueued := true } }
  | .initReturned => some { state with module := .cancel }
  | .cancel =>
      if state.timer.running = none then
        some { state with module := .printUnloaded, timer := { state.timer with enqueued := false } }
      else none
  | .printUnloaded => some { state with module := .exitReturned, log := state.log ++ [.unloaded] }
  | .exitReturned => none

def step (callback : Callback) (state : State) : Action → Option State
  | .elapse time => some { state with now := state.now + time }
  | .expire => expireStep state
  | .callback => callbackStep callback state
  | .module => moduleStep callback state

end LearnK.Timers
