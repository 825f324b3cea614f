import LearnK.Lib.CriticalSection
import LearnK.Cdev.Core

/-! Concurrent calls of the cdev device.  The user copies and the `memset` move one byte at a time
under `dev->mutex`, any number of processes interleave between the bytes, and still every call reads
and writes as if it had run alone. -/

namespace LearnK.Cdev

open ByteMemory CInt StepMachine CriticalSection

/-- A call with its own position variable: the VFS hands `hello_read` and `hello_write` a copy. -/
inductive Job
  | read (size copied : Nat) (ppos : Int)
  | write (buf : Nat → UInt8) (size copied : Nat) (ppos : Int)
  | ioctl (cmd : Nat)

inductive Progress
  | copyToUser (size copied : Nat) (ppos : Int) (data : List UInt8)
  | copyFromUser (buf : Nat → UInt8) (size copied : Nat) (ppos : Int) (stored : Nat)
  | memset (cleared : Nat)

def helloSkips : Job → Option Outcome
  | .read _ _ ppos | .write _ _ _ ppos =>
      if toU64 ppos ≥ hellodevSize then some ⟨0, ppos, []⟩ else none
  | .ioctl cmd => if cmd = memClear then none else some ⟨-einval, 0, []⟩

def helloEnter : Job → Progress
  | .read size copied ppos => .copyToUser size copied ppos []
  | .write buf size copied ppos => .copyFromUser buf size copied ppos 0
  | .ioctl _ => .memset 0

def copyEnds (size copied : Nat) (ppos : Int) (data : List UInt8) : Outcome :=
  let count := clampCount size (toU64 ppos)
  if count - copied ≠ 0 then ⟨-efault, ppos, data⟩ else ⟨count, toS64 (ppos + count), data⟩

/-- `copy_from_user` zero-fills what it could not fetch. -/
def fetchedByte (buf : Nat → UInt8) (copied index : Nat) : UInt8 :=
  if index < copied then buf index else 0

def helloAdvance (mem : Nat → UInt8) : Progress → (Nat → UInt8) × (Progress ⊕ Outcome)
  | .copyToUser size copied ppos data =>
      let p := (toU64 ppos).toNat
      if data.length < min copied (clampCount size (toU64 ppos)) then
        (mem, .inl (.copyToUser size copied ppos (data ++ [mem (p + data.length)])))
      else (mem, .inr (copyEnds size copied ppos data))
  | .copyFromUser buf size copied ppos stored =>
      let p := (toU64 ppos).toNat
      if stored < clampCount size (toU64 ppos) then
        (blit mem (p + stored) [fetchedByte buf copied stored],
          .inl (.copyFromUser buf size copied ppos (stored + 1)))
      else (mem, .inr (copyEnds size copied ppos []))
  | .memset cleared =>
      if cleared < hellodevSize then (blit mem cleared [0], .inl (.memset (cleared + 1)))
      else (mem, .inr ⟨0, 0, []⟩)

def helloDev : Protocol (Nat → UInt8) Job Progress Outcome := ⟨helloSkips, helloEnter, helloAdvance⟩

def serve (mem : Nat → UInt8) : Job → (Nat → UInt8) × Outcome
  | .read size copied ppos => (mem, helloRead mem size copied ppos)
  | .write buf size copied ppos => helloWrite mem buf size copied ppos
  | .ioctl cmd => ((helloIoctl mem cmd).1, ⟨(helloIoctl mem cmd).2, 0, []⟩)

def copiedBytes (buf : Nat → UInt8) (count copied : Nat) : List UInt8 :=
  (slice buf 0 count).take copied ++ List.replicate (count - copied) 0

theorem copiedBytes_length (buf : Nat → UInt8) (count copied : Nat) :
    (copiedBytes buf count copied).length = count := by
  simp [copiedBytes]
  omega

theorem copiedBytes_getElem? (buf : Nat → UInt8) {count copied index : Nat} (bound : index < count) :
    (copiedBytes buf count copied)[index]? = some (fetchedByte buf copied index) := by
  unfold fetchedByte
  by_cases fetched : index < copied
  · have inside : index < ((slice buf 0 count).take copied).length := by simp; omega
    rw [copiedBytes, List.getElem?_append_left inside, List.getElem?_take_of_lt fetched,
      slice_getElem? _ _ _ _ bound, if_pos fetched, Nat.zero_add]
  · have outside : ((slice buf 0 count).take copied).length ≤ index := by simp; omega
    have filled : index - min copied count < count - copied := by omega
    rw [copiedBytes, List.getElem?_append_right outside, if_neg fetched]
    simp [filled]

def Progress.Reached (base mem : Nat → UInt8) : Job → Progress → Prop
  | .read size copied ppos, .copyToUser size' copied' ppos' data =>
      size' = size ∧ copied' = copied ∧ ppos' = ppos ∧ mem = base ∧
        data.length ≤ min copied (clampCount size (toU64 ppos)) ∧
        data = slice base (toU64 ppos).toNat data.length
  | .write buf size copied ppos, .copyFromUser buf' size' copied' ppos' stored =>
      buf' = buf ∧ size' = size ∧ copied' = copied ∧ ppos' = ppos ∧
        stored ≤ clampCount size (toU64 ppos) ∧
        mem = blit base (toU64 ppos).toNat
          ((copiedBytes buf (clampCount size (toU64 ppos)) copied).take stored)
  | .ioctl _, .memset cleared =>
      cleared ≤ hellodevSize ∧ mem = blit base 0 ((List.replicate hellodevSize 0).take cleared)
  | _, _ => False

theorem helloEnter_reached (base : Nat → UInt8) (job : Job) :
    (helloEnter job).Reached base base job := by
  cases job with
  | read size copied ppos => exact ⟨rfl, rfl, rfl, rfl, Nat.zero_le _, rfl⟩
  | write buf size copied ppos =>
      exact ⟨rfl, rfl, rfl, rfl, Nat.zero_le _, (blit_nil base _).symm⟩
  | ioctl cmd => exact ⟨Nat.zero_le _, (blit_nil base _).symm⟩

theorem helloAdvance_reached {base mem after : Nat → UInt8} {job : Job} {progress next : Progress}
    (reached : progress.Reached base mem job)
    (advanced : helloAdvance mem progress = (after, .inl next)) : next.Reached base after job := by
  match job, progress, reached with
  | .read size copied ppos, .copyToUser _ _ _ data, ⟨rfl, rfl, rfl, kept, short, same⟩ =>
      simp only [helloAdvance] at advanced
      split_ifs at advanced with more
      · cases advanced
        refine ⟨rfl, rfl, rfl, kept, by simp; omega, ?_⟩
        rw [List.length_append, List.length_singleton, slice_append, ← same, kept]
        rfl
      · simp at advanced
  | .write buf size copied ppos, .copyFromUser _ _ _ _ stored, ⟨rfl, rfl, rfl, rfl, short, same⟩ =>
      simp only [helloAdvance] at advanced
      split_ifs at advanced with more
      · cases advanced
        refine ⟨rfl, rfl, rfl, rfl, more, ?_⟩
        rw [same]
        exact blit_take_succ base _ (copiedBytes_getElem? buf more)
      · simp at advanced
  | .ioctl cmd, .memset cleared, ⟨short, same⟩ =>
      simp only [helloAdvance] at advanced
      split_ifs at advanced with more
      · cases advanced
        have zero : (List.replicate hellodevSize (0 : UInt8))[cleared]? = some 0 := by simp [more]
        have stored := blit_take_succ base 0 zero
        rw [Nat.zero_add] at stored
        exact ⟨more, by rw [same]; exact stored⟩
      · simp at advanced

theorem partly_reached {base mem : Nat → UInt8} {job : Job} {progress : Progress}
    (partly : Partly helloDev base job mem progress) : progress.Reached base mem job := by
  induction partly with
  | enter => exact helloEnter_reached base job
  | advance earlier advanced ih => exact helloAdvance_reached ih advanced

theorem helloRead_ends {base : Nat → UInt8} {size copied : Nat} {ppos : Int} {data : List UInt8}
    (below : ¬toU64 ppos ≥ hellodevSize)
    (whole : data = slice base (toU64 ppos).toNat (min copied (clampCount size (toU64 ppos)))) :
    helloRead base size copied ppos = copyEnds size copied ppos data := by
  simp only [helloRead, copyEnds, if_neg below, whole]
  split_ifs with incomplete
  · rw [Nat.min_eq_left (by omega)]
  · rw [Nat.min_eq_right (by omega)]

theorem helloWrite_ends {base buf : Nat → UInt8} {size copied : Nat} {ppos : Int}
    (below : ¬toU64 ppos ≥ hellodevSize) :
    helloWrite base buf size copied ppos =
      (blit base (toU64 ppos).toNat (copiedBytes buf (clampCount size (toU64 ppos)) copied),
        copyEnds size copied ppos []) := by
  simp only [helloWrite, copyEnds, if_neg below, copiedBytes]
  split_ifs <;> rfl

theorem helloDev_computes : Computes helloDev serve where
  skips base job result skipped := by
    cases job with
    | read size copied ppos =>
        simp only [helloDev, helloSkips] at skipped
        split_ifs at skipped with beyond
        simp only [serve, helloRead, if_pos beyond]
        exact congrArg _ (Option.some.inj skipped)
    | write buf size copied ppos =>
        simp only [helloDev, helloSkips] at skipped
        split_ifs at skipped with beyond
        simp only [serve, helloWrite, if_pos beyond]
        exact congrArg _ (Option.some.inj skipped)
    | ioctl cmd =>
        simp only [helloDev, helloSkips] at skipped
        split_ifs at skipped with other
        simp only [serve, helloIoctl, if_neg other]
        exact congrArg _ (Option.some.inj skipped)
  ends base job mem progress after result enters partly advanced := by
    have reached := partly_reached partly
    simp only [helloDev] at enters advanced
    match job, progress, reached with
    | .read size copied ppos, .copyToUser _ _ _ data, ⟨rfl, rfl, rfl, kept, short, same⟩ =>
        have below : ¬toU64 ppos ≥ hellodevSize := by
          intro beyond
          simp [helloSkips, beyond] at enters
        simp only [helloAdvance] at advanced
        split_ifs at advanced with more
        · simp at advanced
        · cases advanced
          have all : data.length = min copied (clampCount size (toU64 ppos)) := by omega
          rw [all] at same
          rw [serve, helloRead_ends below same, kept]
    | .write buf size copied ppos, .copyFromUser _ _ _ _ stored, ⟨rfl, rfl, rfl, rfl, short, same⟩ =>
        have below : ¬toU64 ppos ≥ hellodevSize := by
          intro beyond
          simp [helloSkips, beyond] at enters
        simp only [helloAdvance] at advanced
        split_ifs at advanced with more
        · simp at advanced
        · cases advanced
          have all : stored = clampCount size (toU64 ppos) := by omega
          rw [all, List.take_of_length_le (by rw [copiedBytes_length])] at same
          rw [serve, helloWrite_ends below, same]
    | .ioctl cmd, .memset cleared, ⟨short, same⟩ =>
        have clears : cmd = memClear := by
          by_contra other
          simp [helloSkips, other] at enters
        simp only [helloAdvance] at advanced
        split_ifs at advanced with more
        · simp at advanced
        · cases advanced
          have all : cleared = hellodevSize := by omega
          rw [all, List.take_of_length_le (by simp)] at same
          rw [serve, helloIoctl, if_pos clears, same]

/-- Reads, writes and clears of any number of processes are linearizable, byte loops and failed
user copies included: every call takes effect once, between its call and its return, the effects in
their order are the calls done one after the other, and with the mutex free the device holds what
they made of it. -/
theorem helloDev_linearizable (actions : List (Action Job))
    (state : CriticalSection.State (Nat → UInt8) Job Progress Outcome)
    (reached : run (CriticalSection.step helloDev) (start fun _ => 0) actions = some state) :
    (∀ id, InSession id state.events (state.tasks id).session) ∧
      (∃ mem, run (replay serve) (fun _ => 0) state.history = some mem) ∧
      (state.holder = none → run (replay serve) (fun _ => 0) state.history = some state.shared) := by
  have serial := serial_reachable helloDev_computes reached
  refine ⟨serial.sessions, ?_, serial.replays⟩
  obtain ⟨mem, replayed, -⟩ := serial.explained
  exact ⟨mem, replayed⟩

def tornReader : List (Action Job) :=
  [.call 0 (.write (fun _ => 7) 2 2 0), .call 1 (.read 2 2 0), .run 0, .run 0, .run 0, .run 0, .run 0,
    .run 1, .run 0, .run 1, .run 1, .run 1, .run 1, .run 1]

theorem helloDev_linearizable_tornReader : ∃ state,
    run (CriticalSection.step helloDev) (start fun _ => 0) tornReader = some state ∧
      run (replay serve) (fun _ => 0) state.history = some state.shared :=
  ⟨_, rfl, (helloDev_linearizable tornReader _ rfl).2.2 rfl⟩

end LearnK.Cdev
