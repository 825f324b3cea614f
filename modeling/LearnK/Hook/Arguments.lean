import LearnK.Hook.Failing
import LearnK.Hook.Probes

/-! The record that `entry_handler` makes of a call against the arguments of that call, which a kernel
function has in `rdi`, `rsi`, `rdx` and `rcx`. -/

namespace LearnK.Hook

open ByteMemory CString StepMachine Function
open LearnK.RbTree (Addr RbRoutines addrs)
open LearnK.Hook.Main (Registers)

/-- `path` is known by the names from its dentry up, none for a root. -/
structure MountArgs where
  devName : Text
  path : List Text
  typePage : Text
  flags : UInt64

theorem slash_noNul : ∀ byte ∈ [(47 : UInt8)], byte ≠ 0 := by simp

def rootText : Text := ⟨[47], slash_noNul⟩

def pathOf (names : List Text) : Text :=
  if names = [] then rootText
  else ⟨pathText names, fun _ member same => nul_notMem_pathText names (same ▸ member)⟩

structure MountArgs.Short (args : MountArgs) : Prop where
  devName : args.devName.strlen < 256
  path : (pathOf args.path).strlen < 256
  typePage : args.typePage.strlen < 64

def field (text : Text) (size : Nat) : List UInt8 :=
  text.bytes ++ List.replicate (size - text.strlen) 0

def MountArgs.record (args : MountArgs) : MountParams :=
  ⟨field args.devName 256, field (pathOf args.path) 256, field args.typePage 64, args.flags⟩

def Points (memory : Memory) (pointer : UInt64) (text : Text) : Prop :=
  ∃ chars, memory.string pointer = some chars ∧ slice chars 0 (text.strlen + 1) = text.chars

structure Called (memory : Memory) (regs : Registers) (args : MountArgs) : Prop where
  devName : Points memory regs.di args.devName
  path : memory.dentry regs.si = some args.path
  typePage : Points memory regs.dx args.typePage
  flags : regs.cx = args.flags

/-- The fourth argument also stands in `r10`, and a root finds its path in the new buffer. -/
def Recordable (memory : Memory) (regs : Registers) (args : MountArgs) : Prop :=
  ∃ buffer, memory.buffer = some buffer ∧ regs.r10 = regs.cx ∧
    (args.path = [] → buffer 0 = 47 ∧ buffer 1 = 0)

theorem nul_notMem_text (text : Text) : 0 ∉ text.bytes := fun member => text.noNul 0 member rfl

theorem strncpyFrom_text {source : Nat → UInt8} {text : Text}
    (held : slice source 0 (text.strlen + 1) = text.chars) (count : Nat) :
    strncpyFrom source count = strncpyBytes text count := by
  rw [strncpyFrom_eq (nul_notMem_text text) held, strncpyBytes, List.length_take]
  congr 2
  rw [Text.strlen]
  omega

theorem strncpyFrom_getElem? {source : Nat → UInt8} {count index : Nat} (inside : index < count)
    (noNul : ∀ before < index, source before ≠ 0) :
    (strncpyFrom source count)[index]? = some (source index) := by
  have split : count = index + (count - index) := by omega
  have rest : slice source index (count - index) =
      source index :: slice source (index + 1) (count - index - 1) := by
    have one : count - index = 1 + (count - index - 1) := by omega
    rw [one, slice_append]
    simp [slice]
  have plain : ∀ char ∈ slice source 0 index, decide (char ≠ 0) = true := by
    intro char member
    obtain ⟨before, bound, rfl⟩ := List.mem_map.mp member
    rw [Nat.zero_add]
    exact decide_eq_true (noNul before (List.mem_range.mp bound))
  have scanned : (slice source 0 count).takeWhile (· ≠ 0) =
      slice source 0 index ++
        (source index :: slice source (index + 1) (count - index - 1)).takeWhile (· ≠ 0) := by
    rw [split, slice_append, Nat.zero_add, ← split, rest, List.takeWhile_append_of_pos plain]
  rw [strncpyFrom, scanned]
  by_cases stop : source index = 0
  · have padded : (List.replicate (count - index) (0 : UInt8))[0]? = some 0 := by
      rw [List.getElem?_replicate, if_pos (by omega)]
    simp [stop, List.getElem?_append_right, padded]
  · simp [stop]

theorem strncpyBytes_short {text : Text} {count : Nat} (short : text.strlen < count) :
    strncpyBytes text count = field text count := by
  rw [strncpyBytes, field, List.take_of_length_le (Nat.le_of_lt short)]

theorem recordedPath_iff {names : List Text} (short : (pathOf names).strlen < 256)
    (buffer : Nat → UInt8) :
    strncpyFrom (buildPath names (buffer, 0)).1 256 = field (pathOf names) 256 ↔
      (names = [] → buffer 0 = 47 ∧ buffer 1 = 0) := by
  rw [← strncpyBytes_short short]
  by_cases root : names = []
  · subst root
    simp only [buildPath, pathOf, if_true, forall_const]
    constructor
    · intro same
      have first : buffer 0 = 47 := by
        have stored : (strncpyFrom buffer 256)[0]? = some (buffer 0) :=
          strncpyFrom_getElem? (by decide) (by simp)
        rw [same] at stored
        exact (Option.some.inj stored).symm
      have second : buffer 1 = 0 := by
        have stored : (strncpyFrom buffer 256)[1]? = some (buffer 1) :=
          strncpyFrom_getElem? (by decide) (by simp [first])
        rw [same] at stored
        exact (Option.some.inj stored).symm
      exact ⟨first, second⟩
    · rintro ⟨first, second⟩
      have held : slice buffer 0 (rootText.strlen + 1) = rootText.chars := by
        simp [slice, rootText, Text.strlen, Text.chars, List.range_succ, first, second]
      exact strncpyFrom_text held 256
  · have path : pathOf names =
        ⟨pathText names, fun _ member same => nul_notMem_pathText names (same ▸ member)⟩ :=
      if_neg root
    have fits : (pathText names).length < 256 := by
      rw [path] at short
      exact short
    have whole : clipped (pathText names) = pathText names := by
      rw [clipped_eq, List.take_of_length_le]
      have limit : pathMax = 4096 := rfl
      omega
    have held := buildPath_held root buffer
    rw [whole] at held
    refine iff_of_true ?_ fun empty => absurd empty root
    rw [path]
    exact strncpyFrom_text held 256

theorem copyParams_called {memory : Memory} {regs : Registers} {args : MountArgs}
    (called : Called memory regs args) (short : args.Short) :
    copyParams memory regs.toPtRegs = memory.buffer.map fun buffer =>
      ⟨args.record.devName, strncpyFrom (buildPath args.path (buffer, 0)).1 256,
        args.record.fsType, regs.r10⟩ := by
  obtain ⟨devName, device, deviceHeld⟩ := called.devName
  obtain ⟨typePage, type, typeHeld⟩ := called.typePage
  have deviceStored : strncpyFrom devName 256 = field args.devName 256 :=
    (strncpyFrom_text deviceHeld 256).trans (strncpyBytes_short short.devName)
  have typeStored : strncpyFrom typePage 64 = field args.typePage 64 :=
    (strncpyFrom_text typeHeld 64).trans (strncpyBytes_short short.typePage)
  simp only [copyParams, ptRegsParams, device, type, called.path, Option.bind_some,
    getAbsolutePath, Option.map_some, deviceStored, typeStored]
  cases memory.buffer <;> rfl

theorem copyParams_record_iff {memory : Memory} {regs : Registers} {args : MountArgs}
    (called : Called memory regs args) (short : args.Short) :
    copyParams memory regs.toPtRegs = some args.record ↔ Recordable memory regs args := by
  rw [copyParams_called called short, Option.map_eq_some_iff]
  refine exists_congr fun buffer => and_congr_right fun _ => ?_
  rw [← recordedPath_iff short.path buffer, called.flags]
  constructor
  · intro same
    exact ⟨congrArg MountParams.flags same, congrArg MountParams.dirName same⟩
  · rintro ⟨flags, dirName⟩
    rw [dirName, flags]
    rfl

def Call.FromRegisters (call : Call) : Prop :=
  ∀ record, call.copied = some record →
    ∃ regs, call.regs = some regs ∧ copyParams call.memory regs = some record

variable {routines : RbRoutines} {state next : State}

def State.FromRegisters (state : State) : Prop :=
  ∀ (self : Nat) (call : Call), state.calls[self]? = some call → call.FromRegisters

theorem fromRegisters_step {action : Action} (before : state.FromRegisters)
    (stepped : step routines state action = some next) : next.FromRegisters := by
  intro self call present record recorded
  rcases call_cases stepped present with earlier | ⟨ri, regs, memory, rfl⟩ | ⟨old, found, moved, -⟩
  · exact before self call earlier record recorded
  · simp at recorded
  · rw [moved.regs, moved.memory]
    rcases moved.copied with same | ⟨given, registers, gives⟩
    · exact before self old found record (same ▸ recorded)
    · exact ⟨given, registers, gives.trans recorded⟩

theorem Survives.entry (survives : Survives state) {self : Nat} {call : Call}
    (found : state.calls[self]? = some call) {params : Addr} (held : call.params = some params)
    (stored : call.pc.stored = true) :
    ∃ entry ∈ addrs state.pool.root, state.pool.entries entry = ⟨call.ri, params⟩ := by
  have owns : call.params.isSome = true := by rw [held]; rfl
  have there := State.revived_get found
  rw [call.revived_of_params owns] at there
  have pooled := survives.paired.pooled
  obtain ⟨entry, member, key⟩ := pooled.complete self call there stored
  have flying : call.pc.inFlight = true := by
    cases pc : call.pc <;> simp [pc] at stored ⊢
  have mine := (pooled.stored_of_mem survives.paired.apart there flying member key).2
  rw [held, Option.getD_some] at mine
  refine ⟨entry, member, ?_⟩
  rw [← key, ← mine]
  rfl

/-- What a call recorded, in the pool and in the log, is the arguments it was made with exactly when
`r10` has the flags too and the path is not a root's, unless the new buffer happens to say `"/"`. -/
theorem entry_handler_records_iff (routines : RbRoutines) (entries : Addr → MyEntry)
    (heap : Addr → MountParams) (actions : List Action) (final : State)
    (possible : EachStep (step routines) Possible (State.initial entries heap) actions)
    (ran : run (step routines) (State.initial entries heap) actions = some final)
    (self : Nat) (call : Call) (regs : Registers) (args : MountArgs)
    (found : final.calls[self]? = some call) (registers : call.regs = some regs.toPtRegs)
    (called : Called call.memory regs args) (short : args.Short) :
    (copyParams call.memory regs.toPtRegs = some args.record ↔ Recordable call.memory regs args) ∧
    (∀ params, call.params = some params → call.pc.filled = true →
      (call.pc.stored = true →
        ∃ entry ∈ addrs final.pool.root, final.pool.entries entry = ⟨call.ri, params⟩) ∧
      (final.heap params = args.record ↔ Recordable call.memory regs args)) ∧
    (call.pc.hasSeen = true →
      (call.seen = some args.record ↔ Recordable call.memory regs args)) := by
  have survives : Survives final := run_invariant_eachStep
    (fun _ _ _ condition survives stepped => survives_step condition survives stepped)
    (survives_initial entries heap) possible ran
  have fromRegisters : final.FromRegisters :=
    run_invariant (fun _ _ _ before stepped => fromRegisters_step before stepped)
      (by simp [State.FromRegisters, State.initial]) ran
  have exact := copyParams_record_iff called short
  have given (record : MountParams) (copied : call.copied = some record) :
      record = args.record ↔ Recordable call.memory regs args := by
    obtain ⟨regs', held, gives⟩ := fromRegisters self call found record copied
    obtain rfl := Option.some.inj (registers.symm.trans held)
    rw [← exact, gives, Option.some.injEq]
  refine ⟨exact, fun params held filled => ⟨survives.entry found held, ?_⟩, fun seen => ?_⟩
  · obtain ⟨block, own, copied⟩ := (survives.good found (by rw [held]; rfl)).filled filled
    obtain rfl := Option.some.inj (held.symm.trans own)
    exact given _ copied
  · have owns : call.params.isSome = true := by
      rw [Option.isSome_iff_ne_none]
      intro missing
      rcases survives.stuck call (List.mem_of_getElem? found) missing with pc | pc | pc <;>
        simp [pc] at seen
    obtain ⟨recorded, same⟩ := (survives.good found owns).seen seen
    obtain ⟨record, copied⟩ := Option.isSome_iff_exists.mp recorded
    rw [same, copied, Option.some.injEq]
    exact given record copied

def letterA : Text := ⟨[97], by simp⟩

def letterMemory : Memory :=
  ⟨fun _ => some fun index => if index = 0 then 97 else 0, fun _ => some [letterA],
    some fun _ => 0⟩

def mounting (regs : Registers) : List Action :=
  .call 4096 (some regs.toPtRegs) letterMemory :: enter 0 16 32 ++ leave 0

def bindRegs : Registers := ⟨⟨1, 2, 3, 0, 0, 0⟩, 4096⟩

def bindArgs : MountArgs := ⟨letterA, [letterA], letterA, 4096⟩

theorem letter_points (pointer : UInt64) : Points letterMemory pointer letterA :=
  ⟨_, rfl, by decide⟩

theorem bindArgs_short : bindArgs.Short := ⟨by decide, by decide, by decide⟩

theorem entry_handler_records_r10 :
    Called letterMemory bindRegs bindArgs ∧ bindArgs.Short ∧
      EachStep (step RbTree.plainRoutines) Possible
        (State.initial (fun _ => ⟨0, 0⟩) fun _ => ⟨[], [], [], 0⟩) (mounting bindRegs) ∧
      ∃ final call, run (step RbTree.plainRoutines)
          (State.initial (fun _ => ⟨0, 0⟩) fun _ => ⟨[], [], [], 0⟩) (mounting bindRegs) =
            some final ∧
        final.calls[0]? = some call ∧ call.pc = .done ∧
        call.seen = some { bindArgs.record with flags := 0 } ∧ call.seen ≠ some bindArgs.record := by
  refine ⟨⟨letter_points 1, rfl, letter_points 3, rfl⟩, bindArgs_short, by decide +kernel, ?_⟩
  obtain ⟨call, member, done, seen⟩ : ∃ call,
      ((run (step RbTree.plainRoutines) (State.initial (fun _ => ⟨0, 0⟩) fun _ => ⟨[], [], [], 0⟩)
        (mounting bindRegs)).bind fun final => final.calls[0]?) = some call ∧ call.pc = .done ∧
        call.seen = some { bindArgs.record with flags := 0 } :=
    ⟨_, rfl, by decide +kernel, by decide +kernel⟩
  obtain ⟨final, ran, found⟩ := Option.bind_eq_some_iff.mp member
  refine ⟨final, call, ran, found, done, seen, ?_⟩
  rw [seen]
  decide +kernel

def agreeingRegs : Registers := ⟨⟨1, 2, 3, 4096, 0, 0⟩, 4096⟩

theorem entry_handler_records_iff_agreeing :
    ∃ final call, run (step RbTree.plainRoutines)
        (State.initial (fun _ => ⟨0, 0⟩) fun _ => ⟨[], [], [], 0⟩) (mounting agreeingRegs) =
          some final ∧
      final.calls[0]? = some call ∧ call.seen = some bindArgs.record := by
  obtain ⟨call, member, done, registers, memory⟩ : ∃ call,
      ((run (step RbTree.plainRoutines) (State.initial (fun _ => ⟨0, 0⟩) fun _ => ⟨[], [], [], 0⟩)
        (mounting agreeingRegs)).bind fun final => final.calls[0]?) = some call ∧
        call.pc = .done ∧ call.regs = some agreeingRegs.toPtRegs ∧ call.memory = letterMemory :=
    ⟨_, rfl, by decide +kernel, by decide +kernel, rfl⟩
  obtain ⟨final, ran, found⟩ := Option.bind_eq_some_iff.mp member
  have called : Called call.memory agreeingRegs bindArgs := by
    rw [memory]
    exact ⟨letter_points 1, rfl, letter_points 3, rfl⟩
  have recordable : Recordable call.memory agreeingRegs bindArgs := by
    rw [memory]
    exact ⟨_, rfl, rfl, by simp [bindArgs]⟩
  refine ⟨final, call, ran, found, ?_⟩
  exact ((entry_handler_records_iff RbTree.plainRoutines _ _ (mounting agreeingRegs) final
    (by decide +kernel) ran 0 call agreeingRegs bindArgs found registers called
    bindArgs_short).2.2 (by rw [done]; rfl)).mpr recordable

end LearnK.Hook
