import LearnK.Hook.ProbeHeap

/-! The log of the file-operation probes as its reader sees it, every `%s` read back from the buffer
that was printed, against what was done to the files called `test.txt`. -/

namespace LearnK.Hook.Main

open ByteMemory CString
open LearnK.RbTree (Addr)

/-- A pointer that is NULL is printed as such, and kept as `none`. -/
inductive Report
  | writes (comm : List UInt8) (count : UInt64) (pos : Int) (fpath data : Option (List UInt8))
  | written (fpath : Option (List UInt8))
  | rename (fname newname : List UInt8)
  | remove (fpath : Option (List UInt8))
  deriving DecidableEq, Repr

def readString (size : Addr → Nat) (buffer : Buffer) : Option (List UInt8) :=
  (nulIndex buffer.bytes (size buffer.addr) 0).map (slice buffer.bytes 0)

def readPointer (size : Addr → Nat) : Option Buffer → Option (Option (List UInt8))
  | none => some none
  | some buffer => (readString size buffer).map some

def Line.report (size : Addr → Nat) : Line → Option Report
  | .writes comm count pos fpath data =>
      (readPointer size fpath).bind fun fpath =>
        (readPointer size data).map fun data => .writes comm.bytes count pos fpath data
  | .written fpath => (readPointer size fpath).map .written
  | .rename fname newname => some (.rename fname.bytes newname.bytes)
  | .remove fpath => (readPointer size fpath).map .remove

def reports (size : Addr → Nat) : List Effect → Option (List Report)
  | [] => some []
  | .kmalloc buffer allocated :: rest => reports (Function.update size buffer allocated) rest
  | .copy _ _ :: rest => reports size rest
  | .print line :: rest => (line.report size).bind fun report =>
      (reports size rest).map fun later => report :: later
  | .kfree none :: rest => reports size rest
  | .kfree (some buffer) :: rest => reports (Function.update size buffer.addr 0) rest

def logOf : List Probe → Option (List Report)
  | [] => some []
  | probe :: rest => (reports (fun _ => 0) probe.outcome.effects).bind fun printed =>
      (logOf rest).map fun later => printed ++ later

/-- A write that `vfs_write_pre` reports: of `test.txt`, all of its bytes readable, and a NUL in the
first `PATH_MAX` bytes of the caller's memory. -/
def Shown (kernel : Kernel) (regs : Registers) : Prop :=
  (kernel.file regs.di).dName.bytes = testTxt ∧ isErrOrNull regs.si = false ∧
    (∃ nul < pathMax, kernel.userAt regs.si nul = some 0 ∧
      ∀ spot < nul, (kernel.userAt regs.si spot).isSome) ∧
    regs.dx.toNat ≤ intMax ∧ ∀ spot < regs.dx.toNat, (kernel.userAt regs.si spot).isSome

instance (kernel : Kernel) (regs : Registers) : Decidable (Shown kernel regs) :=
  inferInstanceAs (Decidable (_ ∧ _ ∧ _ ∧ _ ∧ _))

def pathOf (kmalloc : Option Buffer) (d : Dentry) : Option (List UInt8) :=
  kmalloc.map fun _ => clipped (pathText d.names)

/-- What was done, if it concerns a `test.txt`; a write with its bytes up to their first NUL. -/
def Probe.done : Probe → Option Report
  | .writePre kernel regs _ kmalloc =>
      if Shown kernel regs then
        (kernel.loff regs.cx).map fun pos =>
          .writes kernel.comm.bytes regs.dx pos (pathOf kmalloc (kernel.file regs.di))
            (some ((readUser (kernel.userAt regs.si) regs.dx.toNat 0).takeWhile (· ≠ 0)))
      else none
  | .writePost kernel regs kmalloc =>
      if (kernel.file regs.di).dName.bytes = testTxt then
        some (.written (pathOf kmalloc (kernel.file regs.di)))
      else none
  | .renamePre kernel regs =>
      let (old, new) := kernel.renamedata regs.di
      if old.dName.bytes = testTxt then some (.rename old.dName.bytes new.dName.bytes) else none
  | .unlinkPre kernel regs kmalloc =>
      if (kernel.dentry regs.dx).dName.bytes = testTxt then
        some (.remove (pathOf kmalloc (kernel.dentry regs.dx)))
      else none

/-- A copy that fits its buffer, an allocator that gives distinct ones, a readable position. -/
structure CopySound (kernel : Kernel) (regs : Registers) (zeroed kmalloc : Option Buffer) : Prop where
  data : ∃ buffer, zeroed = some buffer ∧ ∀ path ∈ kmalloc, path.addr ≠ buffer.addr
  fits : regs.dx.toNat ≤ strnlenUser (kernel.userAt regs.si) pathMax 0 + 1 ∨ intMax < regs.dx.toNat
  pos : (kernel.loff regs.cx).isSome

def Probe.Sound : Probe → Prop
  | .writePre kernel regs zeroed kmalloc =>
      Copies kernel regs (strnlenUser (kernel.userAt regs.si) pathMax 0) →
        (kernel.file regs.di).names ≠ [] ∧ CopySound kernel regs zeroed kmalloc
  | .writePost kernel regs _ =>
      (kernel.file regs.di).dName.bytes = testTxt → (kernel.file regs.di).names ≠ []
  | .renamePre _ _ => True
  | .unlinkPre kernel regs _ =>
      (kernel.dentry regs.dx).dName.bytes = testTxt → (kernel.dentry regs.dx).names ≠ []

section Strings

variable {size : Addr → Nat} {buffer : Buffer}

theorem readString_text {text : List UInt8} (noNul : 0 ∉ text) (room : text.length < size buffer.addr)
    (held : slice buffer.bytes 0 (text.length + 1) = text ++ [0]) :
    readString size buffer = some text := by
  rw [slice_append] at held
  obtain ⟨front, last⟩ := List.append_inj held (by simp)
  have scanned : nulIndex buffer.bytes (size buffer.addr) 0 = some (0 + text.length) := by
    refine nulIndex_eq (fun index bound zero => ?_) (by simpa [slice] using last) room
    have stored := slice_getElem? buffer.bytes 0 text.length index bound
    rw [front, zero] at stored
    exact noNul (List.mem_of_getElem? stored)
  rw [readString, scanned, Option.map_some, Nat.zero_add, front]

theorem readPointer_path (kmalloc : Option Buffer) (d : Dentry) (below : d.names ≠ [])
    (size : Addr → Nat) (sized : ∀ buffer ∈ kmalloc, size buffer.addr = pathMax) :
    readPointer size (absolutePath kmalloc d) = some (pathOf kmalloc d) := by
  cases kmalloc with
  | none => rfl
  | some buffer =>
      have room : (clipped (pathText d.names)).length < size buffer.addr := by
        rw [sized buffer rfl]
        exact clipped_room _
      have held := @readString_text size ⟨buffer.addr, (Hook.buildPath d.names (buffer.bytes, 0)).1⟩ _
        (nul_notMem_clipped _) room (buildPath_held below buffer.bytes)
      exact congrArg (Option.map some) held

theorem readString_stored {stored : List UInt8} (held : slice buffer.bytes 0 stored.length = stored)
    (zeros : ∀ spot, stored.length ≤ spot → spot < size buffer.addr → buffer.bytes spot = 0)
    (ends : ∃ nul < size buffer.addr, buffer.bytes nul = 0) :
    readString size buffer = some (stored.takeWhile (· ≠ 0)) := by
  obtain ⟨nul, inside, stop⟩ := ends
  obtain ⟨found, scanned⟩ := nulIndex_found (Nat.zero_le nul) (by omega : nul < 0 + size buffer.addr) stop
  obtain ⟨-, bound, zero, before⟩ := nulIndex_first scanned
  have within : found ≤ stored.length := by
    by_contra beyond
    exact before stored.length (Nat.zero_le _) (by omega) (zeros _ (Nat.le_refl _) (by omega))
  have front : slice buffer.bytes 0 found = stored.take found := by
    have whole := held
    rw [← Nat.add_sub_cancel' within, slice_append] at whole
    rw [← List.take_left' (slice_length buffer.bytes 0 found), whole]
  have plain : ∀ byte ∈ stored.take found, decide (byte ≠ 0) = true := by
    intro byte member
    rw [← front] at member
    simp only [slice, List.mem_map, List.mem_range] at member
    obtain ⟨index, below, rfl⟩ := member
    rw [Nat.zero_add]
    exact decide_eq_true (before index (Nat.zero_le _) below)
  have rest : (stored.drop found).takeWhile (· ≠ 0) = [] := by
    cases behind : stored.drop found with
    | nil => rfl
    | cons byte others =>
        have here : stored[found]? = some byte := by
          rw [← List.head?_drop, behind]
          rfl
        have short := (List.getElem?_eq_some_iff.mp here).1
        have same := slice_getElem? buffer.bytes 0 stored.length found short
        rw [held, here, Nat.zero_add, zero, Option.some.injEq] at same
        simp [same]
  have split : stored.takeWhile (· ≠ 0) = stored.take found := by
    calc stored.takeWhile (· ≠ 0)
        = (stored.take found ++ stored.drop found).takeWhile (· ≠ 0) := by rw [List.take_append_drop]
      _ = stored.take found := by
        rw [List.takeWhile_append_of_pos plain, rest, List.append_nil]
  rw [readString, scanned, Option.map_some, front, split]

end Strings

theorem readUser_length_iff (user : Nat → Option UInt8) (left index : Nat) :
    (readUser user left index).length = left ↔ ∀ spot < left, (user (index + spot)).isSome := by
  induction left generalizing index with
  | zero => simp [readUser]
  | succ left ih =>
      rw [readUser]
      cases found : user index with
      | none =>
          refine iff_of_false (by simp) fun readable => ?_
          have here := readable 0 (by omega)
          simp [found] at here
      | some byte =>
          simp only [List.length_cons, Nat.add_right_cancel_iff, ih]
          constructor
          · intro readable spot bound
            cases spot with
            | zero => simp [found]
            | succ spot =>
                have later := readable spot (by omega)
                rwa [Nat.add_right_comm] at later
          · intro readable spot bound
            have later := readable (spot + 1) (by omega)
            rwa [← Nat.add_assoc, Nat.add_right_comm] at later

theorem strnlenUser_bounds {user : Nat → Option UInt8} {left index nul : Nat} (low : index ≤ nul)
    (high : nul < index + left) (stop : user nul = some 0)
    (readable : ∀ spot, index ≤ spot → spot < nul → (user spot).isSome) :
    index < strnlenUser user left index ∧ strnlenUser user left index ≤ nul + 1 := by
  induction left generalizing index with
  | zero => omega
  | succ left ih =>
      rw [strnlenUser]
      cases found : user index with
      | none =>
          rcases Nat.eq_or_lt_of_le low with rfl | above
          · simp [found] at stop
          · have here := readable index (Nat.le_refl _) above
            simp [found] at here
      | some byte =>
          by_cases zero : byte = 0
          · simp only [zero, if_true]
            omega
          · simp only [zero, if_false]
            have above : index ≠ nul := by
              rintro rfl
              rw [found, Option.some.injEq] at stop
              exact zero stop
            obtain ⟨lower, upper⟩ := @ih (index + 1) (by omega) (by omega)
              fun spot after before => readable spot (by omega) before
            exact ⟨by omega, upper⟩

section Write

variable {kernel : Kernel} {regs : Registers}

theorem shown_iff : Shown kernel regs ↔
    Copies kernel regs (strnlenUser (kernel.userAt regs.si) pathMax 0) ∧
      (copyFromUser (kernel.userAt regs.si) regs.dx.toNat).2 = 0 := by
  have whole : (copyFromUser (kernel.userAt regs.si) regs.dx.toNat).2 = 0 ↔
      regs.dx.toNat ≤ intMax ∧ ∀ spot < regs.dx.toNat, (kernel.userAt regs.si spot).isSome := by
    have length := readUser_length_iff (kernel.userAt regs.si) regs.dx.toNat 0
    have bound := readUser_length_le (kernel.userAt regs.si) regs.dx.toNat 0
    simp only [Nat.zero_add] at length
    rw [← length, copyFromUser]
    split
    · have positive : 0 < intMax := by decide
      simp only
      omega
    · simp only
      omega
  rw [whole]
  constructor
  · rintro ⟨named, valid, ⟨nul, short, stop, readable⟩, small, all⟩
    obtain ⟨lower, upper⟩ := strnlenUser_bounds (Nat.zero_le nul) (by omega : nul < 0 + pathMax) stop
      fun spot _ below => readable spot below
    exact ⟨⟨named, valid, by omega, by omega⟩, small, all⟩
  · rintro ⟨⟨named, valid, occupied, short⟩, small, all⟩
    refine ⟨named, valid, ?_, small, all⟩
    obtain fault | long | ⟨nul, -, found, stop, mapped⟩ :=
      strnlenUser_cases (kernel.userAt regs.si) pathMax 0
    · exact absurd fault occupied
    · omega
    · exact ⟨nul, by omega, stop, fun spot below => mapped spot (Nat.zero_le _) (Nat.le_of_lt below)⟩

theorem stored_eq (whole : (copyFromUser (kernel.userAt regs.si) regs.dx.toNat).2 = 0) :
    (copyFromUser (kernel.userAt regs.si) regs.dx.toNat).1 =
      readUser (kernel.userAt regs.si) regs.dx.toNat 0 := by
  have bound := readUser_length_le (kernel.userAt regs.si) regs.dx.toNat 0
  unfold copyFromUser at whole ⊢
  split at whole
  · have positive : 0 < intMax := by decide
    simp only at whole
    omega
  · rename_i small
    rw [if_neg small]
    simp only at whole ⊢
    rw [whole, List.replicate_zero, List.append_nil]

theorem reports_freed {size : Addr → Nat} {line : Line} {report : Report} (first second : Option Buffer)
    (printed : line.report size = some report) :
    reports size [.print line, .kfree first, .kfree second] = some [report] := by
  rw [reports, printed]
  cases first <;> cases second <;> rfl

def sized (size : Addr → Nat) (buffer : Option Buffer) (allocation : Nat) : Addr → Nat :=
  buffer.elim size fun buffer => Function.update size buffer.addr allocation

theorem reports_allocated (size : Addr → Nat) (buffer : Option Buffer) (allocation : Nat)
    (rest : List Effect) :
    reports size (allocated buffer allocation ++ rest) =
      reports (sized size buffer allocation) rest := by
  cases buffer <;> rfl

theorem sized_self (size : Addr → Nat) (kmalloc : Option Buffer) (allocation : Nat) :
    ∀ buffer ∈ kmalloc, sized size kmalloc allocation buffer.addr = allocation := by
  rintro buffer rfl
  exact Function.update_self _ _ _

theorem sized_other (size : Addr → Nat) {kmalloc : Option Buffer} (allocation : Nat) {addr : Addr}
    (distinct : ∀ buffer ∈ kmalloc, buffer.addr ≠ addr) :
    sized size kmalloc allocation addr = size addr := by
  cases kmalloc with
  | none => rfl
  | some buffer => exact Function.update_of_ne (distinct buffer rfl).symm _ _

theorem readString_copied {slen : Nat} {size : Addr → Nat} (buffer : Buffer)
    (length : strnlenUser (kernel.userAt regs.si) pathMax 0 = slen)
    (copies : Copies kernel regs slen) (small : regs.dx.toNat ≤ slen + 1)
    (sized : size buffer.addr = slen + 1)
    (whole : (copyFromUser (kernel.userAt regs.si) regs.dx.toNat).2 = 0) :
    readString size ((kzalloc (slen + 1) buffer).store
        (copyFromUser (kernel.userAt regs.si) regs.dx.toNat).1) =
      some ((readUser (kernel.userAt regs.si) regs.dx.toNat 0).takeWhile (· ≠ 0)) := by
  obtain ⟨-, -, occupied, short⟩ := copies
  have ends := copy_leaves_nul buffer length occupied short small
  rw [← stored_eq whole]
  apply readString_stored
  · exact slice_blit_same _ 0 _
  · intro spot above inside
    rw [store_above _ above]
    exact kzalloc_zero buffer (sized ▸ inside)
  · obtain ⟨nul, inside, stop⟩ := ends
    exact ⟨nul, sized.symm ▸ inside, stop⟩

theorem vfsWritePre_reports {zeroed kmalloc : Option Buffer}
    (sound : (Probe.writePre kernel regs zeroed kmalloc).Sound) :
    reports (fun _ => 0) (vfsWritePre kernel regs zeroed kmalloc).effects =
      some (Probe.writePre kernel regs zeroed kmalloc).done.toList := by
  generalize length : strnlenUser (kernel.userAt regs.si) pathMax 0 = slen
  by_cases copies : Copies kernel regs slen
  · obtain ⟨below, ⟨buffer, rfl, distinct⟩, fits, position⟩ := sound (length ▸ copies)
    obtain ⟨pos, read⟩ := Option.isSome_iff_exists.mp position
    rw [vfsWritePre_copies length copies]
    by_cases whole : (copyFromUser (kernel.userAt regs.si) regs.dx.toNat).2 = 0
    · have shown : Shown kernel regs := shown_iff.mpr ⟨length ▸ copies, whole⟩
      have small : regs.dx.toNat ≤ slen + 1 := by
        have within := shown.2.2.2.1
        rw [length] at fits
        omega
      simp only [writeCopied, Option.map_some, Option.isNone_some, Bool.false_eq_true,
        false_and, if_false, whole, ne_eq, not_true, read, Probe.done, shown, if_true, Option.toList_some]
      rw [List.append_assoc, List.append_assoc, reports_allocated, List.cons_append,
        List.nil_append, reports, reports_allocated]
      apply reports_freed
      have own : sized (sized (fun _ => 0) (some buffer) (slen + 1)) kmalloc pathMax buffer.addr =
          slen + 1 := by
        rw [sized_other _ _ distinct]
        exact sized_self _ (some buffer) _ buffer rfl
      rw [Line.report, readPointer_path kmalloc _ below _ (sized_self _ kmalloc pathMax),
        Option.bind_some, readPointer, readString_copied buffer length copies small own whole]
      simp only [Option.map_some, ne_eq]
    · have hidden : ¬Shown kernel regs := fun shown => whole (shown_iff.mp shown).2
      simp only [writeCopied, Option.map_some, Option.isNone_some, Bool.false_eq_true,
        false_and, if_false, whole, ne_eq, not_false_eq_true, if_true, Probe.done, hidden,
        Option.toList_none]
      rfl
  · have hidden : ¬Shown kernel regs := fun shown => copies (length ▸ (shown_iff.mp shown).1)
    obtain ⟨ret, refused⟩ := vfsWritePre_refuses (length ▸ copies) zeroed kmalloc
    rw [refused, Probe.done, if_neg hidden]
    rfl

theorem Probe.reports_done {probe : Probe} (sound : probe.Sound) :
    reports (fun _ => 0) probe.outcome.effects = some probe.done.toList := by
  cases probe with
  | writePre kernel regs zeroed kmalloc => exact vfsWritePre_reports sound
  | writePost kernel regs kmalloc =>
      by_cases named : (kernel.file regs.di).dName.bytes = testTxt
      · have path := readPointer_path kmalloc _ (sound named) _ (sized_self (fun _ => 0) kmalloc pathMax)
        simp only [Probe.outcome, vfsWritePost, named, ne_eq, not_true, if_false, Probe.done, if_true]
        rw [reports_allocated, reports, Line.report, path]
        cases kmalloc <;> rfl
      · simp only [Probe.outcome, vfsWritePost, named, ne_eq, not_false_eq_true, if_true,
          Probe.done, if_false]
        cases kmalloc <;> rfl
  | renamePre kernel regs =>
      simp only [Probe.outcome, vfsRenamePre, Probe.done]
      by_cases named : (kernel.renamedata regs.di).1.dName.bytes = testTxt
      · simp only [named, ne_eq, not_true, if_false, if_true]
        rw [reports, Line.report, named]
        rfl
      · simp only [named, ne_eq, not_false_eq_true, if_true, if_false]
        rfl
  | unlinkPre kernel regs kmalloc =>
      by_cases named : (kernel.dentry regs.dx).dName.bytes = testTxt
      · have path := readPointer_path kmalloc _ (sound named) _ (sized_self (fun _ => 0) kmalloc pathMax)
        simp only [Probe.outcome, vfsUnlinkPre, named, ne_eq, not_true, if_false, Probe.done, if_true]
        rw [reports_allocated, reports, Line.report, path]
        rfl
      · simp only [Probe.outcome, vfsUnlinkPre, named, ne_eq, not_false_eq_true, if_true,
          Probe.done, if_false]
        rfl

/-- Along every run of the probes the log says what was done to the files called `test.txt`, in order
and nothing else. -/
theorem probes_log (probes : List Probe) (sound : ∀ probe ∈ probes, probe.Sound) :
    logOf probes = some (probes.filterMap Probe.done) := by
  induction probes with
  | nil => rfl
  | cons probe rest ih =>
      have here := Probe.reports_done (sound probe (by simp))
      have later := ih fun other member => sound other (by simp [member])
      rw [logOf, here, later, Option.bind_some, Option.map_some]
      cases done : probe.done with
      | none => rw [List.filterMap_cons_none done]; rfl
      | some report => rw [List.filterMap_cons_some done]; rfl

end Write

def stale (addr : Addr) : Option Buffer := some ⟨addr, fun _ => 9⟩

theorem probes_log_binaryWrite :
    logOf [.writePre binaryWrite (binaryRegs 3) (stale 1) (stale 2),
        .writePost binaryWrite (binaryRegs 3) (stale 2)] =
      some [.writes [115, 104] 3 0 (some (47 :: testTxt)) (some [65]),
        .written (some (47 :: testTxt))] := by
  have length : strnlenUser (binaryWrite.userAt 4096) pathMax 0 = 2 := by decide
  have copied : CopySound binaryWrite (binaryRegs 3) (stale 1) (stale 2) := by
    refine ⟨⟨_, rfl, ?_⟩, .inl (length ▸ by decide), rfl⟩
    rintro path given
    obtain rfl := Option.some.inj given
    decide
  have ends : ∃ nul < pathMax, binaryWrite.userAt (binaryRegs 3).si nul = some 0 ∧
      ∀ spot < nul, (binaryWrite.userAt (binaryRegs 3).si spot).isSome :=
    ⟨1, by decide, by decide, by decide⟩
  have small : (binaryRegs 3).dx.toNat ≤ intMax := by decide
  have readable : ∀ spot < (binaryRegs 3).dx.toNat,
      (binaryWrite.userAt (binaryRegs 3).si spot).isSome := by
    decide
  have shown : Shown binaryWrite (binaryRegs 3) := ⟨rfl, rfl, ends, small, readable⟩
  have written : (Probe.writePre binaryWrite (binaryRegs 3) (stale 1) (stale 2)).done =
      some (.writes [115, 104] 3 0 (some (47 :: testTxt)) (some [65])) := by
    rw [Probe.done, if_pos shown]
    rfl
  rw [probes_log]
  · rw [List.filterMap_cons_some written]
    rfl
  · intro probe member
    rcases List.mem_pair.mp member with rfl | rfl
    · exact fun _ => ⟨by decide, copied⟩
    · exact fun _ => by decide

end LearnK.Hook.Main
