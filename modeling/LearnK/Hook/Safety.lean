import Mathlib.Data.List.TakeWhile
import Mathlib.Data.Nat.Find
import LearnK.Hook.Arguments

/-! NULL pointers and missing terminators: what a call may be given, and what its allocations may
answer, for its two handlers to be safe. -/

namespace LearnK.Hook

open ByteMemory CString StepMachine
open LearnK.RbTree (Addr RbRoutines)

structure Mount where
  devName : Option Text
  path : List Text
  typePage : Option Text

structure Outcomes where
  params : Bool
  entry : Bool

def Behind (memory : Memory) (pointer : UInt64) : Option Text → Prop
  | none => pointer = 0 ∧ memory.string pointer = none
  | some text => Points memory pointer text

structure Passed (memory : Memory) (regs : PtRegs) (mount : Mount) : Prop where
  devName : Behind memory regs.di mount.devName
  path : memory.dentry regs.si = some mount.path
  typePage : Behind memory regs.dx mount.typePage

def Granted (outcomes : Outcomes) (self : Nat) (state : State) : Action → Prop
  | .run other kmalloc => other = self → ∀ call, state.calls[self]? = some call →
      (call.pc = .kmalloc → kmalloc.isSome = outcomes.params) ∧
        ∀ new, call.pc = .link new → kmalloc.isSome = outcomes.entry
  | _ => True

def Call.Guarded (entry : Bool) (call : Call) : Prop :=
  match call.pc with
  | .copy => ∀ regs params, call.regs = some regs → call.params = some params → call.ri > 0 →
      (call.memory.string (ptRegsParams regs 0)).isSome ∧ call.memory.buffer.isSome ∧
        (call.memory.string (ptRegsParams regs 2)).isSome
  | .link (some _) => entry = true
  | .printEntry => call.params.isSome = true
  | .readAx regs => regs.isSome = true
  | _ => True

structure MountParams.Terminated (record : MountParams) : Prop where
  devName : 0 ∈ record.devName.take 256
  dirName : 0 ∈ record.dirName.take 256
  fsType : 0 ∈ record.fsType.take 64

def Call.Printable (state : State) (call : Call) : Prop :=
  (call.pc.filled = true → ∀ params, call.params = some params →
    (state.heap params).Terminated) ∧
  (call.pc = .printReturn → ∀ params, call.popped = some params → (state.heap params).Terminated)

/-- In every run with any other calls, whatever those meet with. -/
def HandlersSafe (routines : RbRoutines) (ri : UInt64) (regs : PtRegs) (memory : Memory)
    (outcomes : Outcomes) : Prop :=
  ∀ entries heap final self call,
    Reaches (step routines) (fun state action => Possible state action ∧
      Granted outcomes self state action) (State.initial entries heap) final →
    final.calls[self]? = some call → call.ri = ri → call.regs = some regs →
    call.memory = memory → call.Guarded outcomes.entry ∧ call.Printable final

/-- Every pointer is there and every string, that of the path included, is shorter than its array;
for a root the new buffer is what is copied. -/
structure Mount.Fits (mount : Mount) (outcomes : Outcomes) (buffer : Option (Nat → UInt8)) : Prop where
  params : outcomes.params = true
  devName : ∃ text, mount.devName = some text ∧ text.strlen < 256
  path : ∃ memory, buffer = some memory ∧
    if mount.path = [] then ∃ index < 256, memory index = 0 else (pathText mount.path).length < 256
  typePage : ∃ text, mount.typePage = some text ∧ text.strlen < 64
  entry : outcomes.entry = true

theorem strncpyFrom_length (source : Nat → UInt8) (count : Nat) :
    (strncpyFrom source count).length = count := by
  have short := List.Sublist.length_le
    (List.takeWhile_sublist (fun char => decide (char ≠ 0)) (l := slice source 0 count))
  rw [slice_length] at short
  rw [strncpyFrom, List.length_append, List.length_replicate]
  omega

theorem strncpyFrom_ends_iff (source : Nat → UInt8) (count : Nat) :
    0 ∈ (strncpyFrom source count).take count ↔ ∃ index < count, source index = 0 := by
  rw [List.take_of_length_le (Nat.le_of_eq (strncpyFrom_length source count))]
  by_cases ends : ∃ index < count, source index = 0
  · refine iff_of_true ?_ ends
    have ⟨low, zero⟩ := Nat.find_spec ends
    have stored := strncpyFrom_getElem? low fun before less same =>
      Nat.find_min ends less ⟨Nat.lt_trans less low, same⟩
    rw [zero] at stored
    exact List.mem_of_getElem? stored
  · refine iff_of_false ?_ ends
    have whole : (slice source 0 count).takeWhile (· ≠ 0) = slice source 0 count := by
      refine List.takeWhile_eq_self_iff.mpr fun char member => ?_
      obtain ⟨index, inside, rfl⟩ := List.mem_map.mp member
      rw [Nat.zero_add]
      exact decide_eq_true fun zero => ends ⟨index, List.mem_range.mp inside, zero⟩
    intro member
    rw [strncpyFrom, whole, slice_length, Nat.sub_self, List.replicate_zero,
      List.append_nil] at member
    obtain ⟨index, inside, zero⟩ := List.mem_map.mp member
    rw [Nat.zero_add] at zero
    exact ends ⟨index, List.mem_range.mp inside, zero⟩

theorem ends_iff_length {source : Nat → UInt8} {text : List UInt8} (noNul : 0 ∉ text)
    (held : slice source 0 (text.length + 1) = text ++ [0]) (count : Nat) :
    (∃ index < count, source index = 0) ↔ text.length < count := by
  have there (index : Nat) (low : index < text.length + 1) :
      (text ++ [0])[index]? = some (source index) := by
    rw [← held]
    simp [slice, low]
  constructor
  · rintro ⟨index, inside, zero⟩
    by_contra long
    have nul := there index (by omega)
    rw [List.getElem?_append_left (by omega), zero] at nul
    exact noNul (List.mem_of_getElem? nul)
  · intro short
    have nul := there text.length (by omega)
    simp only [List.getElem?_concat_length, Option.some.injEq] at nul
    exact ⟨text.length, short, nul.symm⟩

theorem points_ends_iff {memory : Memory} {pointer : UInt64} {text : Text}
    (points : Points memory pointer text) (count : Nat) : ∃ chars,
    memory.string pointer = some chars ∧
      (0 ∈ (strncpyFrom chars count).take count ↔ text.strlen < count) := by
  obtain ⟨chars, found, held⟩ := points
  refine ⟨chars, found, (strncpyFrom_ends_iff chars count).trans ?_⟩
  exact ends_iff_length (nul_notMem_text text) held count

theorem path_ends_iff (names : List Text) (buffer : Nat → UInt8) :
    0 ∈ (strncpyFrom (buildPath names (buffer, 0)).1 256).take 256 ↔
      if names = [] then ∃ index < 256, buffer index = 0 else (pathText names).length < 256 := by
  rw [strncpyFrom_ends_iff]
  by_cases root : names = []
  · rw [if_pos root, root]
    rfl
  · rw [if_neg root, ends_iff_length (nul_notMem_clipped names) (buildPath_held root buffer),
      clipped_eq, List.length_take]
    have limit : pathMax = 4096 := rfl
    omega

theorem copyParams_terminated {memory : Memory} {regs : PtRegs} {mount : Mount}
    (passed : Passed memory regs mount) {dev type : Text} {buffer : Nat → UInt8}
    (device : mount.devName = some dev) (page : mount.typePage = some type)
    (given : memory.buffer = some buffer) : ∃ record, copyParams memory regs = some record ∧
      (record.Terminated ↔ dev.strlen < 256 ∧
        (if mount.path = [] then ∃ index < 256, buffer index = 0
          else (pathText mount.path).length < 256) ∧ type.strlen < 64) := by
  have deviceBehind := passed.devName
  have pageBehind := passed.typePage
  rw [device] at deviceBehind
  rw [page] at pageBehind
  obtain ⟨devName, devFound, devEnds⟩ := points_ends_iff deviceBehind 256
  obtain ⟨typePage, typeFound, typeEnds⟩ := points_ends_iff pageBehind 64
  refine ⟨⟨strncpyFrom devName 256, strncpyFrom (buildPath mount.path (buffer, 0)).1 256,
    strncpyFrom typePage 64, ptRegsParams regs 3⟩, ?_, ?_⟩
  · simp only [copyParams, ptRegsParams, devFound, typeFound, passed.path, given, Option.bind_some,
      getAbsolutePath, Option.map_some]
  · rw [← devEnds, ← typeEnds, ← path_ends_iff]
    exact ⟨fun ends => ⟨ends.devName, ends.dirName, ends.fsType⟩,
      fun ends => ⟨ends.1, ends.2.1, ends.2.2⟩⟩

structure Watched (outcomes : Outcomes) (number : Nat) (state : State) : Prop where
  survives : Survives state
  fromRegisters : state.FromRegisters
  granted : ∀ call, state.calls[number]? = some call → call.pc ≠ .kmalloc →
    call.params.isSome = outcomes.params
  returned : ∀ call regs, state.calls[number]? = some call → call.pc = .readAx regs →
    regs.isSome = true

variable {routines : RbRoutines} {outcomes : Outcomes} {self : Nat} {state next : State}

theorem Mount.Fits.safe {mount : Mount} {memory : Memory} {regs : PtRegs} {call : Call}
    (fits : mount.Fits outcomes memory.buffer) (passed : Passed memory regs mount)
    (watched : Watched outcomes self state) (found : state.calls[self]? = some call)
    (registers : call.regs = some regs) (same : call.memory = memory) :
    call.Guarded outcomes.entry ∧ call.Printable state := by
  obtain ⟨dev, device, devShort⟩ := fits.devName
  obtain ⟨type, page, typeShort⟩ := fits.typePage
  obtain ⟨buffer, given, pathEnds⟩ := fits.path
  obtain ⟨record, copies, terminated⟩ := copyParams_terminated passed device page given
  have ends := terminated.mpr ⟨devShort, pathEnds, typeShort⟩
  have held (params : Addr) (mine : call.params = some params) (filled : call.pc.filled = true) :
      (state.heap params).Terminated := by
    obtain ⟨block, own, copied⟩ := (watched.survives.good found (by rw [mine]; rfl)).filled filled
    obtain rfl := Option.some.inj (mine.symm.trans own)
    obtain ⟨regs', present, gives⟩ := watched.fromRegisters self call found _ copied
    obtain rfl := Option.some.inj (registers.symm.trans present)
    rw [same, copies, Option.some.injEq] at gives
    exact gives ▸ ends
  refine ⟨?_, fun filled params mine => held params mine filled, fun pc params popped => ?_⟩
  · rw [Call.Guarded]
    cases pc : call.pc with
    | copy =>
        intro regs' params present _ _
        obtain rfl := Option.some.inj (registers.symm.trans present)
        have devPoints := passed.devName
        have typePoints := passed.typePage
        rw [device] at devPoints
        rw [page] at typePoints
        obtain ⟨devChars, devFound, -⟩ := devPoints
        obtain ⟨typeChars, typeFound, -⟩ := typePoints
        rw [same, given]
        exact ⟨by rw [ptRegsParams, devFound]; rfl, rfl, by rw [ptRegsParams, typeFound]; rfl⟩
    | link new =>
        cases new with
        | none => trivial
        | some slot => exact fits.entry
    | printEntry => exact (watched.granted call found (by simp [pc])).trans fits.params
    | readAx regs => exact watched.returned call regs found pc
    | kmalloc | lockInsert | descend | unlockInsert | body | lockPop | search | erase | unlockPop
    | printReturn | kfree | done => trivial
  · have owns : call.params.isSome = true :=
      (watched.granted call found (by simp [pc])).trans fits.params
    have mine := ((watched.survives.good found owns).popped (by simp [pc])).2
    exact held params (mine.symm.trans popped) (by simp [pc])

def alone (ri : UInt64) (regs : PtRegs) (memory : Memory) (params : Option Addr)
    (record : Option MountParams) (lock : Option Nat) (pc : Pc) : State :=
  ⟨⟨.nil, fun _ => ⟨0, 0⟩⟩, lock,
    match params, record with
    | some params, some record => Function.update (fun _ => ⟨[], [], [], 0⟩) params record
    | _, _ => fun _ => ⟨[], [], [], 0⟩,
    params.toList, [⟨ri, some regs, memory, params, record, none, none, 0, pc⟩]⟩

section Alone

variable {ri : UInt64} {regs : PtRegs} {memory : Memory}

def Leads (routines : RbRoutines) (outcomes : Outcomes) : State → Prop :=
  Reaches (step routines) (fun state action => Possible state action ∧
    Granted outcomes 0 state action) (State.initial (fun _ => ⟨0, 0⟩) fun _ => ⟨[], [], [], 0⟩)

theorem alone_copy (nonzero : ri ≠ 0) {params : Option Addr}
    (answered : params.isSome = outcomes.params) :
    Leads routines outcomes (alone ri regs memory params none none .copy) := by
  have made : Leads routines outcomes (alone ri regs memory none none none .kmalloc) := by
    have possible : Possible (State.initial (fun _ => ⟨0, 0⟩) fun _ => ⟨[], [], [], 0⟩)
        (.call ri (some regs) memory) := ⟨nonzero, rfl, by simp [State.initial]⟩
    exact (Reaches.start _ _).snoc ⟨possible, trivial⟩ rfl
  have possible : Possible (alone ri regs memory none none none .kmalloc) (.run 0 params) := by
    intro allocates
    cases params with
    | none => exact .inl rfl
    | some block => exact .inr (by simp [State.isFresh, alone])
  refine made.snoc ⟨possible, fun _ call found => ?_⟩ (by cases params <;> rfl)
  obtain rfl := Option.some.inj found
  exact ⟨fun _ => answered, by simp⟩

theorem alone_next {params : Option Addr} {record record' : Option MountParams}
    {lock lock' : Option Nat} {pc pc' : Pc}
    (leads : Leads routines outcomes (alone ri regs memory params record lock pc))
    (quiet : pc.allocates = false)
    (stepped : step routines (alone ri regs memory params record lock pc) (.run 0 none) =
      some (alone ri regs memory params record' lock' pc')) :
    Leads routines outcomes (alone ri regs memory params record' lock' pc') := by
  have possible : Possible (alone ri regs memory params record lock pc) (.run 0 none) :=
    fun _ => .inl rfl
  refine leads.snoc ⟨possible, fun _ call found => ?_⟩ stepped
  obtain rfl := Option.some.inj found
  refine ⟨?_, ?_⟩
  · rintro rfl
    simp at quiet
  · rintro new rfl
    simp at quiet

theorem HandlersSafe.at (safe : HandlersSafe routines ri regs memory outcomes)
    {params : Option Addr} {record : Option MountParams} {lock : Option Nat} {pc : Pc}
    (leads : Leads routines outcomes (alone ri regs memory params record lock pc)) :
    Call.Guarded outcomes.entry ⟨ri, some regs, memory, params, record, none, none, 0, pc⟩ ∧
      Call.Printable (alone ri regs memory params record lock pc)
        ⟨ri, some regs, memory, params, record, none, none, 0, pc⟩ :=
  safe _ _ _ 0 _ leads rfl rfl rfl rfl

theorem Behind.some_of_isSome {pointer : UInt64} {arg : Option Text}
    (behind : Behind memory pointer arg) (present : (memory.string pointer).isSome = true) :
    ∃ text, arg = some text := by
  cases arg with
  | none =>
      have missing : memory.string pointer = none := behind.2
      simp [missing] at present
  | some text => exact ⟨text, rfl⟩

theorem HandlersSafe.given (nonzero : ri ≠ 0)
    (safe : HandlersSafe routines ri regs memory outcomes) : outcomes.params = true := by
  by_contra refused
  have start : Leads routines outcomes (alone ri regs memory none none none .copy) :=
    alone_copy nonzero (by simpa using refused)
  -- nothing is copied, and the print at the end follows NULL
  have printing : Leads routines outcomes (alone ri regs memory none none none .printEntry) :=
    alone_next start rfl rfl
  exact absurd (safe.at printing).1 Bool.false_ne_true

theorem HandlersSafe.fits {mount : Mount} (nonzero : ri ≠ 0) (passed : Passed memory regs mount)
    (safe : HandlersSafe routines ri regs memory outcomes) :
    mount.Fits outcomes memory.buffer := by
  have positive : ri > 0 := UInt64.pos_iff_ne_zero.mpr nonzero
  have given := safe.given nonzero
  have start : Leads routines outcomes (alone ri regs memory (some 16) none none .copy) :=
    alone_copy nonzero given.symm
  obtain ⟨devThere, bufferThere, typeThere⟩ := (safe.at start).1 regs 16 rfl rfl positive
  obtain ⟨dev, device⟩ := passed.devName.some_of_isSome devThere
  obtain ⟨type, page⟩ := passed.typePage.some_of_isSome typeThere
  obtain ⟨buffer, answered⟩ := Option.isSome_iff_exists.mp bufferThere
  obtain ⟨record, copies, terminated⟩ := copyParams_terminated passed device page answered
  have filled : Leads routines outcomes
      (alone ri regs memory (some 16) (some record) none .lockInsert) := by
    refine alone_next start rfl ?_
    have entered : entryStep routines 0 none ⟨ri, some regs, memory, some 16, none, none, none, 0, .copy⟩
        (alone ri regs memory (some 16) none none .copy) =
          some (alone ri regs memory (some 16) (some record) none .lockInsert) := by
      simp only [entryStep, if_pos positive, copies]
      rfl
    exact Option.or_eq_some_iff.mpr (.inl entered)
  have ends := (safe.at filled).2.1 rfl 16 rfl
  have held : (alone ri regs memory (some 16) (some record) none .lockInsert).heap 16 = record := by
    simp [alone]
  rw [held, terminated] at ends
  have descending : Leads routines outcomes
      (alone ri regs memory (some 16) (some record) (some 0) .descend) := alone_next filled rfl rfl
  have linking : Leads routines outcomes
      (alone ri regs memory (some 16) (some record) (some 0) (.link (some []))) :=
    alone_next descending rfl rfl
  exact ⟨given, ⟨dev, device, ends.1⟩, ⟨buffer, answered, ends.2.1⟩, ⟨type, page, ends.2.2⟩,
    (safe.at linking).1⟩

end Alone

end LearnK.Hook
