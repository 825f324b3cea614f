import LearnK.Hook.Core
import LearnK.Lib.Printf

/-!
`get_absolute_path` over dentries and their parent pointers, in the two copies of it
(`hook/main.c` and `hook/khook.c`).  The offset is an `int` and the size that is left becomes a
`size_t`, so it wraps once a name has been cut off.
-/

namespace LearnK.Hook

open ByteMemory CInt CString Printf

structure Name extends Text where
  short : toText.strlen < 2147483647

structure Dcache where
  dParent : UInt64 → UInt64
  dName : UInt64 → Name

def Dcache.IsRoot (dcache : Dcache) (dentry : UInt64) : Prop :=
  dentry = 0 ∨ dentry = dcache.dParent dentry

instance (dcache : Dcache) (dentry : UInt64) : Decidable (dcache.IsRoot dentry) :=
  inferInstanceAs (Decidable (_ ∨ _))

def appendName (name : Name) (out : Output) : Output :=
  let (after, len) := out.snprintf (toU64 (toS32 (pathMax - out.cursor))) (47 :: name.bytes)
  { after with cursor := toS32 (out.cursor + len) }

def buildFrom (dcache : Dcache) : Nat → UInt64 → Output → Option Output
  | 0, _, _ => none
  | fuel + 1, dentry, out =>
      if dcache.IsRoot dentry then some out
      else (buildFrom dcache fuel (dcache.dParent dentry) out).map (appendName (dcache.dName dentry))

def pathFrom (build : Nat → UInt64 → Output → Option Output) (fuel : Nat)
    (kmalloc : Option (Int → UInt8)) (d : UInt64) : Option (Option Output) :=
  match kmalloc with
  | none => some none
  | some memory => (build fuel d ⟨memory, 0, []⟩).map some

def Main.buildPath (dcache : Dcache) : Nat → UInt64 → Output → Option Output := buildFrom dcache

def Main.getAbsolutePath (dcache : Dcache) : Nat → Option (Int → UInt8) → UInt64 →
    Option (Option Output) := pathFrom (Main.buildPath dcache)

def Khook.buildPath (dcache : Dcache) : Nat → UInt64 → Output → Option Output := buildFrom dcache

def Khook.getAbsolutePath (dcache : Dcache) : Nat → Option (Int → UInt8) → UInt64 →
    Option (Option Output) := pathFrom (Khook.buildPath dcache)

inductive Copy
  | main
  | khook
  deriving DecidableEq, Repr

def Copy.getAbsolutePath : Copy → Dcache → Nat → Option (Int → UInt8) → UInt64 →
    Option (Option Output)
  | .main => Main.getAbsolutePath
  | .khook => Khook.getAbsolutePath

/-- The parent chain of a dentry ends in a root, with these names on the way there. -/
inductive Ancestry (dcache : Dcache) : UInt64 → List Name → Prop
  | root {dentry : UInt64} (isRoot : dcache.IsRoot dentry) : Ancestry dcache dentry []
  | child {dentry : UInt64} {names : List Name} (notRoot : ¬dcache.IsRoot dentry)
      (above : Ancestry dcache (dcache.dParent dentry) names) :
      Ancestry dcache dentry (dcache.dName dentry :: names)

/-- `'/' c_1 '/' c_2 ... '/' c_n` for the names from the dentry up. -/
def pathText : List Text → List UInt8
  | [] => []
  | name :: parents => pathText parents ++ 47 :: name.bytes

def clipped (path : List UInt8) : List UInt8 := path.take (min path.length (pathMax - 1))

structure Filled (state : (Nat → UInt8) × Nat) (path : List UInt8) : Prop where
  held : path ≠ [] → slice state.1 0 ((clipped path).length + 1) = clipped path ++ [0]
  offset : state.2 = path.length ∨ pathMax < state.2 ∧ pathMax < path.length

theorem clipped_eq (path : List UInt8) : clipped path = path.take (pathMax - 1) := by
  rw [clipped, Nat.min_comm, ← List.take_eq_take_min]

theorem clipped_append {path : List UInt8} (long : pathMax ≤ path.length) (more : List UInt8) :
    clipped (path ++ more) = clipped path := by
  rw [clipped_eq, clipped_eq, List.take_append_of_le_length (by omega)]

theorem clipped_append_short {path : List UInt8} (short : path.length < pathMax)
    (more : List UInt8) :
    clipped (path ++ more) = path ++ more.take (pathMax - path.length - 1) := by
  rw [clipped_eq, List.take_append, List.take_of_length_le (by omega), Nat.sub_right_comm]

theorem Filled.prefix_held {state : (Nat → UInt8) × Nat} {path : List UInt8}
    (filled : Filled state path) (room : path.length < pathMax) :
    slice state.1 0 path.length = path := by
  by_cases empty : path = []
  · rw [empty]
    rfl
  · have whole : clipped path = path := by
      rw [clipped_eq, List.take_of_length_le (by omega)]
    have held := filled.held empty
    rw [whole, slice_append] at held
    exact List.append_inj_left held (by simp)

theorem Filled.append_long {state : (Nat → UInt8) × Nat} {path more : List UInt8} {offset : Nat}
    (filled : Filled state path) (long : pathMax ≤ path.length)
    (past : offset = (path ++ more).length ∨ pathMax < offset ∧ pathMax < path.length) :
    Filled (state.1, offset) (path ++ more) := by
  have positive : 0 < pathMax := by decide
  have occupied : path ≠ [] := List.length_pos_iff.mp (by omega)
  refine ⟨?_, ?_⟩
  · rw [clipped_append long]
    exact fun _ => filled.held occupied
  · rw [List.length_append] at past ⊢
    exact past.imp id fun beyond => ⟨beyond.1, by omega⟩

theorem printName_filled {state : (Nat → UInt8) × Nat} {path : List UInt8}
    (filled : Filled state path) (name : Text) :
    Filled (printName name state) (path ++ 47 :: name.bytes) := by
  by_cases beyond : pathMax < state.2
  · rw [printName, if_pos beyond]
    have long : pathMax < path.length := by
      rcases filled.offset with same | past
      · omega
      · exact past.2
    exact filled.append_long (Nat.le_of_lt long) (.inr ⟨beyond, long⟩)
  · have same := filled.offset.resolve_right fun past => beyond past.1
    rw [printName, if_neg beyond]
    by_cases full : state.2 = pathMax
    · rw [if_pos full]
      refine filled.append_long (by omega) (.inl ?_)
      rw [List.length_append, same]
    · rw [if_neg full]
      have room : path.length < pathMax := by omega
      refine ⟨fun _ => ?_, .inl (by rw [List.length_append, same])⟩
      rw [clipped_append_short room, same, List.append_assoc]
      have grown := slice_blit_after state.1 path.length
        ((47 :: name.bytes).take (pathMax - path.length - 1) ++ [0])
      rw [filled.prefix_held room, List.length_append, ← Nat.add_assoc, ← List.length_append] at grown
      exact grown

theorem buildPath_filled (names : List Text) (buffer : Nat → UInt8) :
    Filled (buildPath names (buffer, 0)) (pathText names) := by
  induction names with
  | nil => exact ⟨fun occupied => absurd rfl occupied, .inl rfl⟩
  | cons name parents ih => exact printName_filled ih name

/-- An `int` that leaves a negative size, whether it is past the end or has wrapped. -/
def Exhausted (offset : Int) : Prop := toS32 offset = offset ∧ toS32 (pathMax - offset) < 0

theorem exhausted_of_overrun {total : Int} (past : pathMax < total)
    (bound : total ≤ pathMax + 2147483647) : Exhausted (toS32 total) := by
  have limit : pathMax = 4096 := rfl
  unfold Exhausted toS32
  omega

structure Mirrors (out : Output) (state : (Nat → UInt8) × Nat) : Prop where
  bytes : out.bytes = state.1
  inside : out.Inside pathMax
  offset : state.2 ≤ pathMax ∧ out.cursor = state.2 ∨ pathMax < state.2 ∧ Exhausted out.cursor

theorem appendName_exhausted {out : Output} (exhausted : Exhausted out.cursor) (name : Name) :
    appendName name out = out := by
  obtain ⟨whole, negative⟩ := exhausted
  have size : toU64 (toS32 (pathMax - out.cursor)) > Output.intMax := by
    unfold toS32 at negative
    unfold toU64 toS32 Output.intMax
    omega
  have nothing : Output.printed (toU64 (toS32 (pathMax - out.cursor))) (47 :: name.bytes) = [] :=
    if_pos (.inl size)
  have none : Output.printedLength (toU64 (toS32 (pathMax - out.cursor))) (47 :: name.bytes) = 0 :=
    if_pos size
  simp only [appendName, Output.snprintf, nothing, none, Output.storeAll, Int.add_zero, whole]

theorem appendName_exact {out : Output} (low : 0 ≤ out.cursor) (high : out.cursor ≤ pathMax)
    (name : Name) :
    appendName name out = { (out.snprintf (pathMax - out.cursor) (47 :: name.bytes)).1 with
      cursor := toS32 (out.cursor + (47 :: name.bytes).length) } := by
  have limit : pathMax = 4096 := rfl
  have short : name.bytes.length < 2147483647 := name.short
  have size : toU64 (toS32 (pathMax - out.cursor)) = pathMax - out.cursor := by
    unfold toU64 toS32
    omega
  have fits : ¬(pathMax - out.cursor > Output.intMax) := by
    unfold Output.intMax
    omega
  have length : Output.printedLength (pathMax - out.cursor) (47 :: name.bytes) =
      (47 :: name.bytes).length := by
    rw [Output.printedLength, if_neg fits, List.length_cons]
    unfold toS32
    omega
  simp only [appendName, size, Output.snprintf, length]

theorem printed_bytes {out : Output} {offset : Nat} (start : out.cursor = offset)
    (room : offset ≤ pathMax) (text : List UInt8) :
    (out.snprintf (pathMax - out.cursor) text).1.bytes =
      if offset = pathMax then out.bytes
      else blit out.bytes offset (text.take (pathMax - offset - 1) ++ [0]) := by
  have limit : pathMax = 4096 := rfl
  simp only [Output.snprintf, start, Output.storeAll_bytes, Output.printed, Output.intMax]
  by_cases full : offset = pathMax
  · rw [if_pos full, if_pos (.inr (by omega)), blit_nil]
  · have size : ((pathMax : Int) - offset).toNat = pathMax - offset := by omega
    rw [if_neg full, if_neg (by omega), size]

theorem appendName_mirrors {out : Output} {state : (Nat → UInt8) × Nat} (mirrors : Mirrors out state)
    (name : Name) : Mirrors (appendName name out) (printName name.toText state) := by
  have limit : pathMax = 4096 := rfl
  have short : name.bytes.length < 2147483647 := name.short
  rcases mirrors.offset with ⟨room, start⟩ | ⟨beyond, exhausted⟩
  · -- the offset is still exact, and only this append can take it past the end or around
    have advanced : (printName name.toText state).2 = state.2 + (47 :: name.bytes).length := by
      rw [printName, if_neg (by omega)]
      split <;> rfl
    have stored : (printName name.toText state).1 =
        (out.snprintf (pathMax - out.cursor) (47 :: name.bytes)).1.bytes := by
      rw [printed_bytes start room, printName, if_neg (by omega), mirrors.bytes]
      split <;> rfl
    rw [appendName_exact (by omega) (by omega)]
    refine ⟨stored.symm, mirrors.inside.snprintf (by omega) (by omega), ?_⟩
    rw [advanced, start, List.length_cons]
    by_cases fits : state.2 + (name.bytes.length + 1) ≤ pathMax
    · have whole : toS32 (state.2 + (name.bytes.length + 1 : Nat)) =
          (state.2 + (name.bytes.length + 1) : Nat) := by
        unfold toS32
        omega
      exact .inl ⟨fits, whole⟩
    · exact .inr ⟨by omega, exhausted_of_overrun (by omega) (by omega)⟩
  · rw [appendName_exhausted exhausted, printName, if_pos beyond]
    exact mirrors

theorem Ancestry.build_mirrors {dcache : Dcache} {d : UInt64} {names : List Name}
    (ancestry : Ancestry dcache d names) {fuel : Nat} (enough : names.length < fuel)
    {start : Output} {state : (Nat → UInt8) × Nat} (mirrors : Mirrors start state) :
    ∃ out, buildFrom dcache fuel d start = some out ∧
      Mirrors out (buildPath (names.map Name.toText) state) := by
  induction ancestry generalizing fuel with
  | root isRoot =>
      obtain ⟨more, rfl⟩ : ∃ more, fuel = more + 1 := ⟨fuel - 1, by simp at enough; omega⟩
      exact ⟨start, if_pos isRoot, mirrors⟩
  | @child dentry names notRoot above ih =>
      rw [List.length_cons] at enough
      obtain ⟨more, rfl⟩ : ∃ more, fuel = more + 1 := ⟨fuel - 1, by omega⟩
      obtain ⟨out, built, reached⟩ := @ih more (by omega)
      refine ⟨appendName (dcache.dName dentry) out, ?_, appendName_mirrors reached _⟩
      rw [buildFrom, if_neg notRoot, built]
      rfl

theorem Copy.getAbsolutePath_eq (copy : Copy) (dcache : Dcache) (fuel : Nat)
    (kmalloc : Option (Int → UInt8)) (d : UInt64) :
    copy.getAbsolutePath dcache fuel kmalloc d = pathFrom (buildFrom dcache) fuel kmalloc d := by
  cases copy <;> rfl

theorem Ancestry.getAbsolutePath_run {dcache : Dcache} {d : UInt64} {names : List Name}
    (ancestry : Ancestry dcache d names) {fuel : Nat} (enough : names.length < fuel) (copy : Copy)
    (memory : Int → UInt8) :
    ∃ out, copy.getAbsolutePath dcache fuel (some memory) d = some (some out) ∧
      getAbsolutePath (some fun index => memory index) (names.map Name.toText) = some out.bytes ∧
      out.Inside pathMax := by
  have fresh : Mirrors ⟨memory, 0, []⟩ (fun index => memory index, 0) :=
    ⟨rfl, by simp [Output.Inside], .inl ⟨Nat.zero_le _, rfl⟩⟩
  obtain ⟨out, built, mirrors⟩ := ancestry.build_mirrors enough fresh
  refine ⟨out, ?_, ?_, mirrors.inside⟩
  · rw [copy.getAbsolutePath_eq, pathFrom, built]
    rfl
  · rw [getAbsolutePath, Option.map_some, mirrors.bytes]

theorem pathText_ne_nil {names : List Text} (occupied : names ≠ []) : pathText names ≠ [] := by
  obtain ⟨name, parents, rfl⟩ := List.exists_cons_of_ne_nil occupied
  simp [pathText]

theorem Ancestry.names_ne_nil {dcache : Dcache} {d : UInt64} {names : List Name}
    (ancestry : Ancestry dcache d names) : names ≠ [] ↔ ¬dcache.IsRoot d := by
  cases ancestry with
  | root isRoot => simp [isRoot]
  | child notRoot above => simp [notRoot]

theorem buildPath_held {names : List Text} (occupied : names ≠ []) (buffer : Nat → UInt8) :
    slice (buildPath names (buffer, 0)).1 0 ((clipped (pathText names)).length + 1) =
      clipped (pathText names) ++ [0] :=
  (buildPath_filled names buffer).held (pathText_ne_nil occupied)

/-- For every dentry below a root both copies leave the path, cut to `PATH_MAX - 1` bytes, and its
NUL in the buffer, and touch nothing else. -/
theorem getAbsolutePath_builds (copy : Copy) (dcache : Dcache) (d : UInt64) (names : List Name)
    (fuel : Nat) (memory : Int → UInt8) (ancestry : Ancestry dcache d names)
    (notRoot : ¬dcache.IsRoot d) (enough : names.length < fuel) :
    ∃ out, copy.getAbsolutePath dcache fuel (some memory) d = some (some out) ∧
      slice out.bytes 0 (min (pathText (names.map Name.toText)).length (pathMax - 1) + 1) =
        (pathText (names.map Name.toText)).take
          (min (pathText (names.map Name.toText)).length (pathMax - 1)) ++ [0] ∧
      out.Inside pathMax := by
  obtain ⟨out, ran, bytes, inside⟩ := ancestry.getAbsolutePath_run enough copy memory
  refine ⟨out, ran, ?_, inside⟩
  have occupied : names.map Name.toText ≠ [] := by
    simpa using ancestry.names_ne_nil.mpr notRoot
  have held := buildPath_held occupied fun index => memory index
  rw [getAbsolutePath, Option.map_some, Option.some.injEq] at bytes
  rw [bytes, clipped, List.length_take, Nat.min_eq_left (Nat.min_le_left _ _)] at held
  exact held

def etcHosts : Dcache where
  dParent dentry := if dentry = 24 then 8 else 16
  dName dentry :=
    if dentry = 24 then ⟨⟨[104, 111, 115, 116, 115], by simp⟩, by simp [Text.strlen]⟩
    else ⟨⟨[101, 116, 99], by simp⟩, by simp [Text.strlen]⟩

theorem etcHosts_ancestry :
    Ancestry etcHosts 24 [etcHosts.dName 24, etcHosts.dName 8] :=
  .child (by decide) (.child (by decide) (.root (by decide)))

theorem getAbsolutePath_builds_etcHosts :
    ∃ out, Copy.khook.getAbsolutePath etcHosts 3 (some fun _ => 255) 24 = some (some out) ∧
      slice out.bytes 0 11 = [47, 101, 116, 99, 47, 104, 111, 115, 116, 115, 0] ∧
      out.Inside pathMax :=
  getAbsolutePath_builds .khook etcHosts 24 _ 3 (fun _ => 255) etcHosts_ancestry (by decide)
    (by decide)

theorem nul_notMem_pathText (names : List Text) : 0 ∉ pathText names := by
  induction names with
  | nil => simp [pathText]
  | cons name parents ih =>
      rw [pathText, List.mem_append, List.mem_cons, not_or, not_or]
      exact ⟨ih, by decide, fun member => name.noNul 0 member rfl⟩

theorem strncpyFrom_eq {source : Nat → UInt8} {text : List UInt8} (noNul : 0 ∉ text)
    (held : slice source 0 (text.length + 1) = text ++ [0]) (count : Nat) :
    strncpyFrom source count =
      text.take count ++ List.replicate (count - (text.take count).length) 0 := by
  have plain : ∀ char ∈ text.take count, decide (char ≠ 0) = true := by
    intro char member
    refine decide_eq_true ?_
    rintro rfl
    exact noNul (List.mem_of_mem_take member)
  obtain ⟨rest, shape, stop⟩ : ∃ rest, slice source 0 count = text.take count ++ rest ∧
      rest.takeWhile (· ≠ 0) = [] := by
    by_cases within : count ≤ text.length
    · have split : text.length + 1 = count + (text.length + 1 - count) := by omega
      rw [split, slice_append] at held
      have cut := congrArg (List.take count) held
      rw [List.take_left' (slice_length _ _ _), List.take_append_of_le_length within] at cut
      exact ⟨[], by rw [cut, List.append_nil], rfl⟩
    · have split : count = (text.length + 1) + (count - text.length - 1) := by omega
      refine ⟨[0] ++ slice source (0 + (text.length + 1)) (count - text.length - 1), ?_, by simp⟩
      rw [List.take_of_length_le (by omega), ← List.append_assoc, ← held, ← slice_append, ← split]
  have scanned : (slice source 0 count).takeWhile (· ≠ 0) = text.take count := by
    rw [shape, List.takeWhile_append_of_pos plain, stop, List.append_nil]
  rw [strncpyFrom, scanned]

/-- Whatever the new buffer held, it ends up with the same string, and `entry_handler` records the
same mount. -/
structure StaleFree (copy : Copy) (dcache : Dcache) (fuel : Nat) (d : UInt64)
    (names : List Name) : Prop where
  string : ∀ memory memory', ∃ out out' text,
    copy.getAbsolutePath dcache fuel (some memory) d = some (some out) ∧
    copy.getAbsolutePath dcache fuel (some memory') d = some (some out') ∧
    out.cString pathMax = some text ∧ out'.cString pathMax = some text
  recorded : ∀ (memory : Memory) regs buffer buffer',
    memory.dentry (ptRegsParams regs 1) = some (names.map Name.toText) →
    copyParams { memory with buffer := some buffer } regs =
      copyParams { memory with buffer := some buffer' } regs

theorem clipped_room (path : List UInt8) : (clipped path).length < pathMax := by
  have limit : pathMax = 4096 := rfl
  rw [clipped_eq, List.length_take]
  omega

theorem nul_notMem_clipped (names : List Text) : 0 ∉ clipped (pathText names) := by
  intro member
  rw [clipped_eq] at member
  exact nul_notMem_pathText names (List.mem_of_mem_take member)

theorem Ancestry.cString_run {dcache : Dcache} {d : UInt64} {names : List Name}
    (ancestry : Ancestry dcache d names) (notRoot : ¬dcache.IsRoot d) {fuel : Nat}
    (enough : names.length < fuel) (copy : Copy) (memory : Int → UInt8) :
    ∃ out, copy.getAbsolutePath dcache fuel (some memory) d = some (some out) ∧
      out.cString pathMax = some (clipped (pathText (names.map Name.toText))) := by
  obtain ⟨out, ran, bytes, -⟩ := ancestry.getAbsolutePath_run enough copy memory
  have occupied : names.map Name.toText ≠ [] := by
    simpa using ancestry.names_ne_nil.mpr notRoot
  have held := buildPath_held occupied fun index => memory index
  rw [getAbsolutePath, Option.map_some, Option.some.injEq] at bytes
  rw [bytes] at held
  exact ⟨out, ran, Output.cString_eq (nul_notMem_clipped _) (clipped_room _) held⟩

theorem copyParams_buffer {memory : Memory} {regs : PtRegs} {names : List Text}
    (occupied : names ≠ []) (found : memory.dentry (ptRegsParams regs 1) = some names)
    (buffer buffer' : Nat → UInt8) :
    copyParams { memory with buffer := some buffer } regs =
      copyParams { memory with buffer := some buffer' } regs := by
  have copied (source : Nat → UInt8) :
      strncpyFrom (buildPath names (source, 0)).1 256 = _ :=
    strncpyFrom_eq (nul_notMem_clipped names) (buildPath_held occupied source) 256
  simp only [copyParams, found, getAbsolutePath, Option.map_some, Option.bind_some, copied]

theorem Copy.getAbsolutePath_root {dcache : Dcache} {d : UInt64} (isRoot : dcache.IsRoot d)
    {fuel : Nat} (enough : 0 < fuel) (copy : Copy) (memory : Int → UInt8) :
    copy.getAbsolutePath dcache fuel (some memory) d = some (some ⟨memory, 0, []⟩) := by
  obtain ⟨more, rfl⟩ : ∃ more, fuel = more + 1 := ⟨fuel - 1, by omega⟩
  rw [copy.getAbsolutePath_eq, pathFrom, buildFrom, if_pos isRoot]
  rfl

/-- What the fresh buffer held shows exactly when the dentry is a root, for which nothing at all is
written. -/
theorem getAbsolutePath_staleFree_iff (copy : Copy) (dcache : Dcache) (d : UInt64)
    (names : List Name) (fuel : Nat) (ancestry : Ancestry dcache d names)
    (enough : names.length < fuel) :
    StaleFree copy dcache fuel d names ↔ ¬dcache.IsRoot d := by
  constructor
  · intro staleFree isRoot
    obtain ⟨out, out', text, ran, -, terminated, -⟩ := staleFree.string (fun _ => 1) (fun _ => 0)
    rw [Copy.getAbsolutePath_root isRoot (by omega), Option.some.injEq, Option.some.injEq] at ran
    rw [← ran] at terminated
    obtain ⟨stop, scanned, -⟩ := Option.map_eq_some_iff.mp terminated
    have nul : (1 : UInt8) = 0 := (nulIndex_first scanned).2.2.1
    exact absurd nul (by decide)
  · intro notRoot
    refine ⟨?_, ?_⟩
    · intro memory memory'
      obtain ⟨out, ran, text⟩ := ancestry.cString_run notRoot enough copy memory
      obtain ⟨out', ran', text'⟩ := ancestry.cString_run notRoot enough copy memory'
      exact ⟨out, out', _, ran, ran', text, text'⟩
    · intro memory regs buffer buffer' found
      refine copyParams_buffer ?_ found buffer buffer'
      simpa using ancestry.names_ne_nil.mpr notRoot

theorem getAbsolutePath_staleFree_iff_etcHosts :
    StaleFree .main etcHosts 3 24 [etcHosts.dName 24, etcHosts.dName 8] :=
  (getAbsolutePath_staleFree_iff .main etcHosts 24 _ 3 etcHosts_ancestry (by decide)).mpr (by decide)

theorem getAbsolutePath_root_exposes :
    etcHosts.IsRoot 16 ∧
      ((Copy.khook.getAbsolutePath etcHosts 1 (some fun index => if index = 0 then 120 else 0) 16).map
        fun out => out.map fun out => out.cString pathMax) = some (some (some [120])) ∧
      ((Copy.khook.getAbsolutePath etcHosts 1 (some fun _ => 0) 16).map
        fun out => out.map fun out => out.cString pathMax) = some (some (some [])) ∧
      ¬StaleFree .khook etcHosts 1 16 [] := by
  refine ⟨by decide, by decide +kernel, by decide +kernel, ?_⟩
  intro staleFree
  obtain ⟨out, out', text, ran, ran', read, read'⟩ :=
    staleFree.string (fun index => if index = 0 then 120 else 0) (fun _ => 0)
  have isRoot : etcHosts.IsRoot 16 := by decide
  rw [Copy.getAbsolutePath_root isRoot (by decide), Option.some.injEq, Option.some.injEq] at ran ran'
  rw [← ran] at read
  rw [← ran', ← read] at read'
  exact absurd read' (by decide +kernel)

end LearnK.Hook
