import LearnK.Timers.Core
import Mathlib.Data.List.Chain

/-! A timer that rearms itself is never lost while its module is loaded and never found again after the
unload, and the runs of its callback keep the distance that the rearming gives them. -/

namespace LearnK.Timers

open StepMachine

def ModulePc.early : ModulePc → Bool
  | .printInit | .setup | .start => true
  | _ => false

def ModulePc.loaded : ModulePc → Bool
  | .initReturned | .cancel => true
  | _ => false

def ModulePc.cancelled : ModulePc → Bool
  | .printUnloaded | .exitReturned => true
  | _ => false

structure Shape (callback : Callback) (state : State) : Prop where
  early : state.module.early = true →
    state.timer.enqueued = false ∧ state.timer.running = none ∧ state.runs = []
  loaded : state.module.loaded = true → state.timer.enqueued = true ∨ state.timer.running ≠ none
  cancelled : state.module.cancelled = true → state.timer.enqueued = false ∧ state.timer.running = none
  restarts : state.timer.running = some .restart → state.timer.enqueued = callback.queuesAtOnce
  taken : state.timer.running = some .printk ∨ state.timer.running = some .forward →
    state.timer.enqueued = false

def Timer.waits (timer : Timer) : Bool :=
  match timer.running with
  | none => timer.enqueued
  | some .restart => true
  | some _ => false

/-- `Follows` relates a run to the time of the next arming and the expiry of it. -/
structure Spaced (callback : Callback) (Follows : Run → Nat → Nat → Prop) (state : State) : Prop where
  chain : state.runs.IsChain fun before after =>
    Follows before after.armed after.expires ∧ after.expires ≤ after.began
  late : ∀ run ∈ state.runs, run.expires ≤ run.began ∧ run.began ≤ state.now
  first : ∀ run ∈ state.runs.head?, run.expires = state.started + callback.interval
  fresh : state.timer.waits = true → state.runs = [] →
    state.timer.expires = state.started + callback.interval
  next : state.timer.waits = true → ∀ last ∈ state.runs.getLast?,
    Follows last state.armed state.timer.expires
  current : state.timer.running = some .printk ∨ state.timer.running = some .forward →
    ∃ last ∈ state.runs.getLast?, last.expires = state.timer.expires

section

variable {callback : Callback} {state next : State}

theorem Shape.moved (shape : Shape callback state) (pc : next.module = state.module)
    (busy : state.timer.enqueued = true ∨ state.timer.running ≠ none)
    (still : next.timer.enqueued = true ∨ next.timer.running ≠ none)
    (restarts : next.timer.running = some .restart → next.timer.enqueued = callback.queuesAtOnce)
    (taken : next.timer.running = some .printk ∨ next.timer.running = some .forward →
      next.timer.enqueued = false) : Shape callback next := by
  have idle (enqueued : state.timer.enqueued = false) (running : state.timer.running = none) : False := by
    rcases busy with queued | inside
    · simp [enqueued] at queued
    · exact inside running
  refine ⟨fun early => ?_, fun _ => still, fun cancelled => ?_, restarts, taken⟩
  · obtain ⟨enqueued, running, -⟩ := shape.early (pc ▸ early)
    exact (idle enqueued running).elim
  · obtain ⟨enqueued, running⟩ := shape.cancelled (pc ▸ cancelled)
    exact (idle enqueued running).elim

theorem shape_module (shape : Shape callback state) (stepped : moduleStep callback state = some next) :
    Shape callback next := by
  have early := shape.early
  have loaded := shape.loaded
  have cancelled := shape.cancelled
  unfold moduleStep at stepped
  cases pc : state.module with
  | printInit =>
      rw [pc] at early
      obtain ⟨enqueued, running, none⟩ := early rfl
      simp only [pc] at stepped
      cases stepped
      exact ⟨fun _ => ⟨enqueued, running, none⟩, by simp [ModulePc.loaded], by simp [ModulePc.cancelled],
        shape.restarts, shape.taken⟩
  | setup =>
      rw [pc] at early
      obtain ⟨-, -, none⟩ := early rfl
      simp only [pc] at stepped
      cases stepped
      exact ⟨fun _ => ⟨rfl, rfl, none⟩, by simp [ModulePc.loaded], by simp [ModulePc.cancelled],
        by simp [Timer.zeroed], by simp [Timer.zeroed]⟩
  | start =>
      rw [pc] at early
      obtain ⟨-, running, -⟩ := early rfl
      simp only [pc] at stepped
      cases stepped
      exact ⟨by simp [ModulePc.early], fun _ => .inl rfl, by simp [ModulePc.cancelled], by simp [running],
        by simp [running]⟩
  | initReturned =>
      rw [pc] at loaded
      simp only [pc] at stepped
      cases stepped
      exact ⟨by simp [ModulePc.early], fun _ => loaded rfl, by simp [ModulePc.cancelled], shape.restarts,
        shape.taken⟩
  | cancel =>
      simp only [pc] at stepped
      split_ifs at stepped with idle
      cases stepped
      exact ⟨by simp [ModulePc.early], by simp [ModulePc.loaded], fun _ => ⟨rfl, idle⟩, by simp [idle],
        by simp [idle]⟩
  | printUnloaded =>
      rw [pc] at cancelled
      simp only [pc] at stepped
      cases stepped
      exact ⟨by simp [ModulePc.early], by simp [ModulePc.loaded], fun _ => cancelled rfl, shape.restarts,
        shape.taken⟩
  | exitReturned => simp [pc] at stepped

theorem shape_step {action : Action} (shape : Shape callback state)
    (stepped : step callback state action = some next) : Shape callback next := by
  cases action with
  | elapse time =>
      obtain rfl := Option.some.inj stepped
      exact ⟨shape.early, shape.loaded, shape.cancelled, shape.restarts, shape.taken⟩
  | expire =>
      simp only [step, expireStep] at stepped
      split_ifs at stepped with due
      cases stepped
      exact shape.moved rfl (.inl due.1) (.inr (by simp)) (by simp) fun _ => rfl
  | callback =>
      simp only [step, callbackStep] at stepped
      cases running : state.timer.running with
      | none => simp [running] at stepped
      | some pc =>
          have busy : state.timer.enqueued = true ∨ state.timer.running ≠ none := .inr (by simp [running])
          cases pc with
          | printk =>
              have taken := shape.taken (.inl running)
              simp only [running] at stepped
              cases stepped
              exact shape.moved rfl busy (.inr (by simp)) (by simp) fun _ => taken
          | forward =>
              simp only [running] at stepped
              cases stepped
              exact shape.moved rfl busy (.inr (by simp)) (fun _ => rfl) (by simp)
          | restart =>
              have queued := shape.restarts running
              simp only [running] at stepped
              cases stepped
              exact shape.moved rfl busy (.inl (by simp [queued])) (by simp) (by simp)
  | module => exact shape_module shape stepped

theorem shape_initial (callback : Callback) : Shape callback initial :=
  ⟨fun _ => ⟨rfl, rfl, rfl⟩, by simp [initial, ModulePc.loaded], by simp [initial, ModulePc.cancelled],
    by simp [initial, Timer.zeroed], by simp [initial, Timer.zeroed]⟩

theorem Shape.stays_idle (cancelled : state.module.cancelled = true) (shape : Shape callback state)
    {action : Action} (stepped : step callback state action = some next) :
    next.module.cancelled = true ∧ next.runs = state.runs := by
  obtain ⟨enqueued, running⟩ := shape.cancelled cancelled
  cases action with
  | elapse time =>
      obtain rfl := Option.some.inj stepped
      exact ⟨cancelled, rfl⟩
  | expire => simp [step, expireStep, enqueued] at stepped
  | callback => simp [step, callbackStep, running] at stepped
  | module =>
      simp only [step, moduleStep] at stepped
      cases pc : state.module with
      | printUnloaded =>
          simp only [pc] at stepped
          cases stepped
          exact ⟨rfl, rfl⟩
      | exitReturned => simp [pc] at stepped
      | printInit | setup | start | initReturned | cancel => simp [pc, ModulePc.cancelled] at cancelled

theorem exit_completes (state : State) (cancelling : state.module = .cancel) :
    ∃ actions final, run (step callback) state actions = some final ∧ final.module = .exitReturned := by
  cases running : state.timer.running with
  | none =>
      exact ⟨[.module, .module], _, by simp [run_cons, step, moduleStep, cancelling, running]; rfl, rfl⟩
  | some pc =>
      cases pc with
      | printk =>
          exact ⟨[.callback, .callback, .callback, .module, .module], _, by
            simp [run_cons, step, callbackStep, moduleStep, cancelling, running]; rfl, rfl⟩
      | forward =>
          exact ⟨[.callback, .callback, .module, .module], _, by
            simp [run_cons, step, callbackStep, moduleStep, cancelling, running]; rfl, rfl⟩
      | restart =>
          exact ⟨[.callback, .module, .module], _, by
            simp [run_cons, step, callbackStep, moduleStep, cancelling, running]; rfl, rfl⟩

end

/-- In every run of either module the timer is queued or its callback is running for as long as the
exit has not taken it off; then it is neither, no callback ever runs again, and no exit waits for
ever. -/
theorem timer_lives_with_module (callback : Callback) (actions more : List Action) :
    Always (step callback) (fun state =>
      (state.module.loaded = true → state.timer.enqueued = true ∨ state.timer.running ≠ none) ∧
      (state.module.cancelled = true → state.timer.enqueued = false ∧ state.timer.running = none ∧
        Always (step callback) (fun later => later.runs = state.runs) state more) ∧
      (state.module = .cancel → ∃ actions final, run (step callback) state actions = some final ∧
        final.module = .exitReturned)) initial actions := by
  have shapes : Always (step callback) (Shape callback) initial actions :=
    always_invariant (fun _ _ _ shape stepped => shape_step shape stepped)
      (shape_initial callback) actions
  refine shapes.imp fun state shape => ⟨shape.loaded, fun cancelled => ?_, exit_completes state⟩
  obtain ⟨enqueued, running⟩ := shape.cancelled cancelled
  refine ⟨enqueued, running, ?_⟩
  have silent : Always (step callback) (fun later => Shape callback later ∧
      later.module.cancelled = true ∧ later.runs = state.runs) state more := by
    refine always_invariant (fun now action next before stepped => ?_) ⟨shape, cancelled, rfl⟩ more
    obtain ⟨gone, same⟩ := before.1.stays_idle before.2.1 stepped
    exact ⟨shape_step before.1 stepped, gone, same.trans before.2.2⟩
  exact silent.imp fun _ later => later.2.2

section

variable {callback : Callback} {Follows : Run → Nat → Nat → Prop} {state next : State}

theorem Spaced.moved (spaced : Spaced callback Follows state) (runs : next.runs = state.runs)
    (started : next.started = state.started) (now : state.now ≤ next.now)
    (fresh : next.timer.waits = true → next.runs = [] →
      next.timer.expires = next.started + callback.interval)
    (follows : next.timer.waits = true → ∀ last ∈ state.runs.getLast?,
      Follows last next.armed next.timer.expires)
    (current : next.timer.running = some .printk ∨ next.timer.running = some .forward →
      ∃ last ∈ state.runs.getLast?, last.expires = next.timer.expires) :
    Spaced callback Follows next := by
  refine ⟨?_, fun run member => ?_, ?_, fresh, ?_, ?_⟩
  · rw [runs]
    exact spaced.chain
  · rw [runs] at member
    obtain ⟨due, past⟩ := spaced.late run member
    exact ⟨due, Nat.le_trans past now⟩
  · rw [runs, started]
    exact spaced.first
  · rw [runs]
    exact follows
  · rw [runs]
    exact current

theorem spaced_expire (spaced : Spaced callback Follows state)
    (due : state.timer.enqueued = true ∧ state.timer.expires ≤ state.now ∧ state.timer.running = none) :
    Spaced callback Follows { state with
      timer := { state.timer with enqueued := false, running := some .printk }
      runs := state.runs ++ [⟨state.timer.expires, state.armed, state.now⟩] } := by
  obtain ⟨enqueued, past, idle⟩ := due
  have waits : state.timer.waits = true := by simp [Timer.waits, idle, enqueued]
  refine ⟨?_, fun run member => ?_, fun run member => ?_, by simp [Timer.waits],
    by simp [Timer.waits], ?_⟩
  · refine List.isChain_append.mpr ⟨spaced.chain, List.isChain_singleton _,
      fun last there first here => ?_⟩
    obtain rfl := Option.some.inj here
    exact ⟨spaced.next waits last there, past⟩
  · rcases List.mem_append.mp member with before | new
    · exact spaced.late run before
    · obtain rfl := List.mem_singleton.mp new
      exact ⟨past, Nat.le_refl _⟩
  · cases before : state.runs with
    | nil =>
        simp only [before, List.nil_append, List.head?_cons, Option.mem_some_iff] at member
        subst member
        exact spaced.fresh waits before
    | cons first rest =>
        refine spaced.first run ?_
        simpa [before] using member
  · exact fun _ => ⟨⟨state.timer.expires, state.armed, state.now⟩, by simp, rfl⟩

theorem spaced_module (shape : Shape callback state) (spaced : Spaced callback Follows state)
    (stepped : moduleStep callback state = some next) : Spaced callback Follows next := by
  have same := @Spaced.moved callback Follows state next spaced
  unfold moduleStep at stepped
  cases pc : state.module with
  | setup =>
      obtain ⟨-, -, none⟩ := shape.early (by rw [pc]; rfl)
      simp only [pc] at stepped
      cases stepped
      exact same rfl rfl (Nat.le_refl _) (by simp [Timer.waits, Timer.zeroed])
        (by simp [Timer.waits, Timer.zeroed]) (by simp [Timer.zeroed])
  | start =>
      obtain ⟨-, running, none⟩ := shape.early (by rw [pc]; rfl)
      simp only [pc] at stepped
      cases stepped
      refine ⟨?_, ?_, ?_, fun _ _ => rfl, ?_, by simp [running]⟩ <;> simp [none]
  | cancel =>
      simp only [pc] at stepped
      split_ifs at stepped with idle
      cases stepped
      exact same rfl rfl (Nat.le_refl _) (by simp [Timer.waits, idle]) (by simp [Timer.waits, idle])
        (by simp [idle])
  | printInit | initReturned | printUnloaded =>
      simp only [pc] at stepped
      cases stepped
      exact same rfl rfl (Nat.le_refl _) spaced.fresh spaced.next spaced.current
  | exitReturned => simp [pc] at stepped

variable (puts : ∀ (last : Run) (now : Nat), last.expires ≤ last.began → last.began ≤ now →
  Follows last now (callback.forward now last.expires))

include puts

theorem spaced_callback (spaced : Spaced callback Follows state)
    (stepped : callbackStep callback state = some next) : Spaced callback Follows next := by
  have same := @Spaced.moved callback Follows state next spaced
  unfold callbackStep at stepped
  cases running : state.timer.running with
  | none => simp [running] at stepped
  | some pc =>
      cases pc with
      | printk =>
          have current := spaced.current (.inl running)
          simp only [running] at stepped
          cases stepped
          exact same rfl rfl (Nat.le_refl _) (by simp [Timer.waits]) (by simp [Timer.waits])
            fun _ => current
      | forward =>
          obtain ⟨last, there, expiry⟩ := spaced.current (.inr running)
          obtain ⟨due, past⟩ := spaced.late last (List.mem_of_getLast? there)
          simp only [running] at stepped
          cases stepped
          refine same rfl rfl (Nat.le_refl _) (fun _ none => ?_) (fun _ other also => ?_) (by simp)
          · simp [show state.runs = [] from none] at there
          · obtain rfl := Option.some.inj (there.symm.trans also)
            rw [← expiry]
            exact puts last state.now due past
      | restart =>
          have waits : state.timer.waits = true := by simp [Timer.waits, running]
          simp only [running] at stepped
          cases stepped
          exact same rfl rfl (Nat.le_refl _) (fun _ => spaced.fresh waits) (fun _ => spaced.next waits)
            (by simp)

theorem spaced_step {action : Action} (shape : Shape callback state)
    (spaced : Spaced callback Follows state)
    (stepped : step callback state action = some next) : Spaced callback Follows next := by
  cases action with
  | elapse time =>
      obtain rfl := Option.some.inj stepped
      exact spaced.moved rfl rfl (Nat.le_add_right _ _) spaced.fresh spaced.next spaced.current
  | expire =>
      simp only [step, expireStep] at stepped
      split_ifs at stepped with due
      cases stepped
      exact spaced_expire spaced due
  | callback => exact spaced_callback puts spaced stepped
  | module => exact spaced_module shape spaced stepped

theorem spaced_always (actions : List Action) :
    Always (step callback) (Spaced callback Follows) initial actions := by
  have empty : Spaced callback Follows initial := by
    constructor <;> simp [initial, Timer.zeroed, Timer.waits]
  have both : Always (step callback) (fun state => Shape callback state ∧ Spaced callback Follows state)
      initial actions := by
    refine always_invariant (fun state action next before stepped => ?_)
      ⟨shape_initial callback, empty⟩ actions
    exact ⟨shape_step before.1 stepped, spaced_step puts before.1 before.2 stepped⟩
  exact both.imp fun _ state => state.2

end

theorem last_expiry {interval : Nat} {first last : Run} {rest : List Run}
    (chain : (first :: rest).IsChain fun before after => before.expires + interval ≤ after.expires)
    (ends : last ∈ (first :: rest).getLast?) : first.expires + rest.length * interval ≤ last.expires := by
  induction rest generalizing first with
  | nil =>
      obtain rfl : first = last := by simpa using ends
      simp
  | cons second rest ih =>
      rw [List.isChain_cons_cons] at chain
      have later := ih chain.2 (by simpa using ends)
      have apart := chain.1
      rw [List.length_cons, Nat.succ_mul]
      omega

theorem Spaced.count {callback : Callback} {Follows : Run → Nat → Nat → Prop} {state : State}
    (spaced : Spaced callback Follows state)
    (apart : ∀ run armed expiry, Follows run armed expiry → run.expires + callback.interval ≤ expiry) :
    state.started + state.runs.length * callback.interval ≤ state.now ∨ state.runs = [] := by
  cases runs : state.runs with
  | nil => exact .inr rfl
  | cons first rest =>
      refine .inl ?_
      have kept := spaced.chain
      rw [runs] at kept
      have chain : (first :: rest).IsChain fun before after =>
          before.expires + callback.interval ≤ after.expires :=
        kept.imp fun before after follows => apart before after.armed after.expires follows.1
      obtain ⟨last, ends⟩ : ∃ last, last ∈ (first :: rest).getLast? :=
        Option.isSome_iff_exists.mp (by simp)
      have reached := last_expiry chain ends
      have begins := spaced.first first (by simp [runs])
      have late := spaced.late last (runs ▸ List.mem_of_getLast? ends)
      rw [List.length_cons, Nat.succ_mul]
      omega

/-- `timer_callback` never begins less than its two seconds after it last began, so it has run at most
once for every two seconds since the load. -/
theorem timerCallback_apart (jiffies : Jiffies) (actions : List Action) :
    Always (step (timerCallback jiffies)) (fun state =>
      (state.runs.IsChain fun before after => before.began + jiffies.msecsToJiffies 2000 ≤ after.began ∧
        before.began + 2 * jiffies.hz ≤ after.began) ∧
      (state.started + state.runs.length * jiffies.msecsToJiffies 2000 ≤ state.now ∨ state.runs = []))
      initial actions := by
  have long := jiffies.two_seconds_le
  have spaced : Always (step (timerCallback jiffies)) (Spaced (timerCallback jiffies) fun run _ expiry =>
      run.expires ≤ run.began ∧ run.began + jiffies.msecsToJiffies 2000 ≤ expiry) initial actions := by
    refine spaced_always (fun last now due past => ⟨due, ?_⟩) actions
    simp only [timerCallback, modTimer]
    omega
  refine spaced.imp fun state spaced => ⟨?_, spaced.count fun run armed expiry follows => ?_⟩
  · refine spaced.chain.imp fun before after follows => ?_
    have apart := Nat.le_trans follows.1.2 follows.2
    exact ⟨apart, by omega⟩
  · simp only [timerCallback]
    omega

theorem on_grid {interval start : Nat} {runs : List Run}
    (chain : runs.IsChain fun before after =>
      ∃ steps, after.expires = before.expires + (steps + 1) * interval)
    (first : ∀ run ∈ runs.head?, ∃ steps, run.expires = start + (steps + 1) * interval) :
    ∀ run ∈ runs, ∃ steps, run.expires = start + (steps + 1) * interval := by
  induction runs with
  | nil => simp
  | cons run rest ih =>
      obtain ⟨before, here⟩ := first run (by simp)
      intro other member
      rcases List.mem_cons.mp member with rfl | later
      · exact ⟨before, here⟩
      · refine ih chain.tail (fun second there => ?_) other later
        obtain ⟨steps, moved⟩ := List.isChain_cons.mp chain |>.1 second there
        refine ⟨before + steps + 1, ?_⟩
        have sum : before + 1 + (steps + 1) = before + steps + 1 + 1 := by omega
        rw [moved, here, Nat.add_assoc, ← Nat.add_mul, sum]

/-- Each run of `hrtimer_callback` is for a point of the grid of half seconds that begins at the
load, not before that point, and no two are for the same one.  The run before it has armed the timer
for it, when the point was still to come. -/
theorem hrtimerCallback_on_grid (forwarding : Forwarding) (actions : List Action) :
    Always (step (hrtimerCallback forwarding)) (fun state =>
      (∀ run ∈ state.runs, run.expires ≤ run.began ∧
        ∃ steps, run.expires = state.started + (steps + 1) * ktimeInterval) ∧
      (state.runs.IsChain fun before after => before.expires < after.expires ∧
        before.began ≤ after.armed ∧ after.armed < after.expires) ∧
      (state.started + state.runs.length * ktimeInterval ≤ state.now ∨ state.runs = []))
      initial actions := by
  have positive : 0 < ktimeInterval := by decide
  have spaced : Always (step (hrtimerCallback forwarding)) (Spaced (hrtimerCallback forwarding)
      fun run armed expiry => (run.expires ≤ run.began ∧ run.began ≤ armed ∧ armed < expiry) ∧
        ∃ steps, expiry = run.expires + (steps + 1) * ktimeInterval) initial actions := by
    refine spaced_always (fun last now due past => ⟨⟨due, past, ?_⟩, ?_⟩) actions
    · exact forwarding.passes ktimeInterval now last.expires positive (Nat.le_trans due past)
    · exact forwarding.onGrid ktimeInterval now last.expires positive (Nat.le_trans due past)
  refine spaced.imp fun state spaced => ⟨fun run member => ⟨(spaced.late run member).1, ?_⟩, ?_, ?_⟩
  · refine on_grid (spaced.chain.imp fun before after follows => follows.1.2)
      (fun first there => ?_) run member
    exact ⟨0, by rw [spaced.first first there]; simp [hrtimerCallback]⟩
  · refine spaced.chain.imp fun before after follows => ?_
    obtain ⟨⟨due, past, still⟩, -⟩ := follows.1
    exact ⟨by omega, past, still⟩
  · refine spaced.count fun run armed expiry follows => ?_
    obtain ⟨-, steps, moved⟩ := follows
    rw [moved, Nat.succ_mul]
    simp only [hrtimerCallback]
    omega

def wholeIntervals : Forwarding where
  hrtimerForwardNow interval now expires :=
    if now < expires then expires else expires + ((now - expires) / interval + 1) * interval
  passes interval now expires positive due := by
    have above := Nat.lt_mul_div_succ (now - expires) positive
    rw [if_neg (Nat.not_lt.mpr due), Nat.mul_comm]
    omega
  onGrid interval now expires _ due := ⟨(now - expires) / interval, if_neg (Nat.not_lt.mpr due)⟩

/-- Taken up a second late, the second run is for the grid point after the ones that were missed. -/
example : (run (step (hrtimerCallback wholeIntervals)) initial [.module, .module, .module,
    .elapse 1700000000, .expire, .elapse 5, .callback, .callback, .callback, .elapse 300000000,
    .expire]).map State.runs =
      some [⟨500000000, 0, 1700000000⟩, ⟨2000000000, 1700000005, 2000000005⟩] := by
  decide +kernel

end LearnK.Timers
