import LearnK.Hook.Path
import LearnK.Lib.Ledger

/-!
The file-operation probes (`hook/main.c`), each handler with everything it does to the heap and to
the log; and when the copy of `vfs_write_pre` fits the buffer made for it.
-/

namespace LearnK.Hook.Main

open ByteMemory CString
open LearnK.RbTree (Addr)

structure Registers extends PtRegs where
  cx : UInt64
  deriving DecidableEq, Repr

inductive Dentry
  | root (dName : Text)
  | child (dName : Text) (dParent : Dentry)

def Dentry.dName : Dentry → Text
  | .root dName => dName
  | .child dName _ => dName

def Dentry.names : Dentry → List Text
  | .root _ => []
  | .child dName dParent => dName :: dParent.names

/-- What the registers of a probed call point at: `file->f_path.dentry`, `*pos`, the two dentries
of a `renamedata`, and user memory, with `none` where it may not be read. -/
structure Kernel where
  file : UInt64 → Dentry
  loff : UInt64 → Option Int
  dentry : UInt64 → Dentry
  renamedata : UInt64 → Dentry × Dentry
  user : Nat → Option UInt8
  comm : Text

def Kernel.userAt (kernel : Kernel) (buf : UInt64) (index : Nat) : Option UInt8 :=
  kernel.user (buf.toNat + index)

structure Buffer where
  addr : Addr
  bytes : Nat → UInt8

inductive Line
  | writes (comm : Text) (count : UInt64) (pos : Int) (fpath data : Option Buffer)
  | written (fpath : Option Buffer)
  | rename (fname newname : Text)
  | remove (fpath : Option Buffer)

inductive Effect
  | kmalloc (buffer : Addr) (size : Nat)
  | copy (data : Option Buffer) (stored : List UInt8)
  | print (line : Line)
  | kfree (buffer : Option Buffer)

/-- A handler that follows a bad pointer does not return. -/
structure Outcome where
  ret : Option Int
  effects : List Effect

def efault : Int := 14

def intMax : Nat := 2147483647

def testTxt : List UInt8 := [116, 101, 115, 116, 46, 116, 120, 116]

def isErrOrNull (pointer : UInt64) : Bool := pointer = 0 || 18446744073709547521 ≤ pointer.toNat

/-- `strnlen_user`, with `left` bytes to go: the length with the NUL, one more than the count if
there is none, and 0 on a fault. -/
def strnlenUser (user : Nat → Option UInt8) (left index : Nat) : Nat :=
  match left with
  | 0 => index + 1
  | left + 1 =>
      match user index with
      | none => 0
      | some byte => if byte = 0 then index + 1 else strnlenUser user left (index + 1)

def readUser (user : Nat → Option UInt8) (left index : Nat) : List UInt8 :=
  match left with
  | 0 => []
  | left + 1 =>
      match user index with
      | none => []
      | some byte => byte :: readUser user left (index + 1)

/-- The bytes that `copy_from_user` stores and how many it could not copy.  It pads the rest with
zero bytes; a count above `INT_MAX` is refused before anything is stored. -/
def copyFromUser (user : Nat → Option UInt8) (count : Nat) : List UInt8 × Nat :=
  if count > intMax then ([], count)
  else
    let bytes := readUser user count 0
    (bytes ++ List.replicate (count - bytes.length) 0, count - bytes.length)

def kzalloc (size : Nat) (buffer : Buffer) : Buffer :=
  { buffer with bytes := blit buffer.bytes 0 (List.replicate size 0) }

def Buffer.store (data : Buffer) (stored : List UInt8) : Buffer :=
  { data with bytes := blit data.bytes 0 stored }

def allocated (buffer : Option Buffer) (size : Nat) : List Effect :=
  buffer.toList.map fun buffer => .kmalloc buffer.addr size

def absolutePath (kmalloc : Option Buffer) (d : Dentry) : Option Buffer :=
  kmalloc.bind fun buffer =>
    (Hook.getAbsolutePath (some buffer.bytes) d.names).map fun bytes => { buffer with bytes := bytes }

/-- `vfs_write_pre` from its `kzalloc` on.  `PTR_ERR_OR_ZERO` is 0 for a NULL `data`. -/
def writeCopied (kernel : Kernel) (regs : Registers) (slen : Nat) (zeroed kmalloc : Option Buffer) :
    Outcome :=
  let data := zeroed.map (kzalloc (slen + 1))
  let (stored, left) := copyFromUser (kernel.userAt regs.si) regs.dx.toNat
  let effects := allocated zeroed (slen + 1) ++ [.copy data stored]
  if data.isNone ∧ stored ≠ [] then ⟨none, effects⟩
  else if left ≠ 0 then ⟨some (-efault), effects ++ [.kfree data]⟩
  else
    let fpath := absolutePath kmalloc (kernel.file regs.di)
    let effects := effects ++ allocated kmalloc pathMax
    match kernel.loff regs.cx with
    | none => ⟨none, effects⟩
    | some pos => ⟨some 0, effects ++
        [.print (.writes kernel.comm regs.dx pos fpath (data.map (·.store stored))),
          .kfree data, .kfree fpath]⟩

def vfsWritePre (kernel : Kernel) (regs : Registers) (zeroed kmalloc : Option Buffer) : Outcome :=
  if (kernel.file regs.di).dName.bytes ≠ testTxt then ⟨some 0, []⟩
  else if isErrOrNull regs.si then ⟨some (-efault), []⟩
  else
    let slen := strnlenUser (kernel.userAt regs.si) pathMax 0
    if slen = 0 ∨ slen > pathMax then ⟨some (-efault), []⟩
    else writeCopied kernel regs slen zeroed kmalloc

/-- The path is made before the name is looked at.  The handler returns nothing, kept as 0. -/
def vfsWritePost (kernel : Kernel) (regs : Registers) (kmalloc : Option Buffer) : Outcome :=
  let d := kernel.file regs.di
  let fpath := absolutePath kmalloc d
  let effects := allocated kmalloc pathMax
  if d.dName.bytes ≠ testTxt then ⟨some 0, effects⟩
  else ⟨some 0, effects ++ [.print (.written fpath), .kfree fpath]⟩

def vfsRenamePre (kernel : Kernel) (regs : Registers) : Outcome :=
  let (old, new) := kernel.renamedata regs.di
  if old.dName.bytes ≠ testTxt then ⟨some 0, []⟩
  else ⟨some 0, [.print (.rename old.dName new.dName)]⟩

def vfsUnlinkPre (kernel : Kernel) (regs : Registers) (kmalloc : Option Buffer) : Outcome :=
  let d := kernel.dentry regs.dx
  if d.dName.bytes ≠ testTxt then ⟨some 0, []⟩
  else ⟨some 0, allocated kmalloc pathMax ++ [.print (.remove (absolutePath kmalloc d))]⟩

theorem strnlenUser_cases (user : Nat → Option UInt8) (left index : Nat) :
    strnlenUser user left index = 0 ∨ strnlenUser user left index = index + left + 1 ∨
      ∃ nul, index ≤ nul ∧ strnlenUser user left index = nul + 1 ∧ user nul = some 0 ∧
        ∀ spot, index ≤ spot → spot ≤ nul → (user spot).isSome := by
  induction left generalizing index with
  | zero => exact .inr (.inl rfl)
  | succ left ih =>
      rw [strnlenUser]
      split
      · exact .inl rfl
      · rename_i byte found
        split
        · rename_i zero
          refine .inr (.inr ⟨index, Nat.le_refl _, rfl, by rw [found, zero], fun spot low high => ?_⟩)
          obtain rfl : spot = index := by omega
          rw [found]
          rfl
        · rcases ih (index + 1) with fault | long | ⟨nul, low, length, stop, mapped⟩
          · exact .inl fault
          · exact .inr (.inl (by omega))
          · refine .inr (.inr ⟨nul, by omega, length, stop, fun spot low high => ?_⟩)
            rcases Nat.eq_or_lt_of_le low with rfl | above
            · rw [found]
              rfl
            · exact mapped spot above high

theorem readUser_length_le (user : Nat → Option UInt8) (left index : Nat) :
    (readUser user left index).length ≤ left := by
  induction left generalizing index with
  | zero => rfl
  | succ left ih =>
      rw [readUser]
      split
      · simp
      · simpa using ih (index + 1)

theorem readUser_getElem? {user : Nat → Option UInt8} {left index offset : Nat}
    (inside : offset < left)
    (mapped : ∀ spot, index ≤ spot → spot ≤ index + offset → (user spot).isSome) :
    (readUser user left index)[offset]? = user (index + offset) := by
  induction left generalizing index offset with
  | zero => omega
  | succ left ih =>
      obtain ⟨byte, found⟩ := Option.isSome_iff_exists.mp (mapped index (by omega) (by omega))
      rw [readUser, found]
      cases offset with
      | zero => simp [found]
      | succ offset =>
          rw [List.getElem?_cons_succ,
            ih (by omega) fun spot low high => mapped spot (by omega) (by omega)]
          congr 1
          omega

theorem copyFromUser_length {user : Nat → Option UInt8} {count : Nat} (small : count ≤ intMax) :
    (copyFromUser user count).1.length = count := by
  have bound := readUser_length_le user count 0
  rw [copyFromUser, if_neg (by omega)]
  simp only [List.length_append, List.length_replicate]
  omega

theorem copyFromUser_refused {user : Nat → Option UInt8} {count : Nat} (large : intMax < count) :
    copyFromUser user count = ([], count) := if_pos large

theorem copyFromUser_getElem? {user : Nat → Option UInt8} {count offset : Nat}
    (small : count ≤ intMax) (inside : offset < count)
    (mapped : ∀ spot ≤ offset, (user spot).isSome) :
    (copyFromUser user count).1[offset]? = user offset := by
  have entry : (readUser user count 0)[offset]? = user (0 + offset) :=
    readUser_getElem? inside fun spot _ high => mapped spot (by omega)
  rw [Nat.zero_add] at entry
  obtain ⟨byte, found⟩ := Option.isSome_iff_exists.mp (mapped offset (Nat.le_refl _))
  have within : offset < (readUser user count 0).length := by
    rw [found] at entry
    exact (List.getElem?_eq_some_iff.mp entry).1
  rw [copyFromUser, if_neg (by omega), List.getElem?_append_left within, entry]

/-- Every copy stores inside the bytes that were allocated for its buffer, `size` of them by now, and
leaves a NUL among them. -/
def CopiesFit (size : Addr → Nat) : List Effect → Prop
  | [] => True
  | .kmalloc buffer allocated :: rest => CopiesFit (Function.update size buffer allocated) rest
  | .copy none _ :: _ => False
  | .copy (some data) stored :: rest =>
      (stored.length ≤ size data.addr ∧
        ∃ nul < size data.addr, (data.store stored).bytes nul = 0) ∧ CopiesFit size rest
  | .print _ :: rest => CopiesFit size rest
  | .kfree _ :: rest => CopiesFit size rest

def Copies (kernel : Kernel) (regs : Registers) (slen : Nat) : Prop :=
  (kernel.file regs.di).dName.bytes = testTxt ∧ isErrOrNull regs.si = false ∧
    slen ≠ 0 ∧ slen ≤ pathMax

theorem vfsWritePre_copies {kernel : Kernel} {regs : Registers} {slen : Nat}
    (length : strnlenUser (kernel.userAt regs.si) pathMax 0 = slen)
    (copies : Copies kernel regs slen) (zeroed kmalloc : Option Buffer) :
    vfsWritePre kernel regs zeroed kmalloc = writeCopied kernel regs slen zeroed kmalloc := by
  obtain ⟨named, valid, occupied, short⟩ := copies
  have checked : ¬(slen = 0 ∨ slen > pathMax) := by omega
  simp only [vfsWritePre, named, valid, length, checked, ne_eq, not_true, if_false,
    Bool.false_eq_true]

theorem vfsWritePre_refuses {kernel : Kernel} {regs : Registers}
    (refuses : ¬Copies kernel regs (strnlenUser (kernel.userAt regs.si) pathMax 0))
    (zeroed kmalloc : Option Buffer) :
    ∃ ret, vfsWritePre kernel regs zeroed kmalloc = ⟨some ret, []⟩ := by
  rw [vfsWritePre]
  split
  · exact ⟨_, rfl⟩
  · rename_i named
    split
    · exact ⟨_, rfl⟩
    · rename_i valid
      dsimp only
      split
      · exact ⟨_, rfl⟩
      · rename_i checked
        exact absurd ⟨by simpa using named, by simpa using valid, by omega, by omega⟩ refuses

theorem copiesFit_allocated {size : Addr → Nat} (buffer : Option Buffer) (length : Nat)
    {rest : List Effect} (fits : ∀ size, CopiesFit size rest) :
    CopiesFit size (allocated buffer length ++ rest) := by
  cases buffer with
  | none => exact fits size
  | some buffer => exact fits _

theorem writeCopied_fits_iff {kernel : Kernel} {regs : Registers} {slen : Nat}
    (data : Buffer) (kmalloc : Option Buffer) (stored : List UInt8)
    (copied : (copyFromUser (kernel.userAt regs.si) regs.dx.toNat).1 = stored) :
    CopiesFit (fun _ => 0) (writeCopied kernel regs slen (some data) kmalloc).effects ↔
      stored.length ≤ slen + 1 ∧
        ∃ nul < slen + 1, ((kzalloc (slen + 1) data).store stored).bytes nul = 0 := by
  have tail (rest : List Effect) (fits : ∀ size, CopiesFit size rest) :
      CopiesFit (fun _ => 0) (allocated (some data) (slen + 1) ++
          Effect.copy (some (kzalloc (slen + 1) data)) stored :: rest) ↔
        stored.length ≤ slen + 1 ∧
          ∃ nul < slen + 1, ((kzalloc (slen + 1) data).store stored).bytes nul = 0 := by
    have size : Function.update (fun _ => 0) data.addr (slen + 1)
        (kzalloc (slen + 1) data).addr = slen + 1 := Function.update_self _ _ _
    simp only [allocated, Option.toList_some, List.map_cons, List.map_nil, List.cons_append,
      List.nil_append, CopiesFit, size]
    exact and_iff_left (fits _)
  simp only [writeCopied, copied, Option.map_some, List.append_assoc, List.cons_append,
    List.nil_append]
  split
  · exact tail _ fun _ => trivial
  · split
    · exact tail _ fun _ => trivial
    · split
      · exact tail _ fun size => by
          have fits := @copiesFit_allocated size kmalloc pathMax [] fun _ => trivial
          simpa using fits
      · exact tail _ fun size => copiesFit_allocated kmalloc pathMax fun _ => trivial

theorem kzalloc_zero (data : Buffer) {size spot : Nat} (inside : spot < size) :
    (kzalloc size data).bytes spot = 0 := by
  have entry := blit_inside data.bytes 0 (List.replicate size (0 : UInt8)) (by simpa using inside)
  rw [Nat.zero_add, List.getElem_replicate] at entry
  exact entry

theorem store_above (data : Buffer) {stored : List UInt8} {spot : Nat}
    (above : stored.length ≤ spot) : (data.store stored).bytes spot = data.bytes spot := by
  have beyond : 0 + stored.length ≤ spot := by omega
  exact blit_above data.bytes stored beyond

theorem store_inside (data : Buffer) {stored : List UInt8} {spot : Nat} {byte : UInt8}
    (entry : stored[spot]? = some byte) : (data.store stored).bytes spot = byte := by
  obtain ⟨inside, same⟩ := List.getElem?_eq_some_iff.mp entry
  have stays := blit_inside data.bytes 0 stored inside
  rw [Nat.zero_add] at stays
  exact stays.trans same

theorem copy_leaves_nul {user : Nat → Option UInt8} {slen count : Nat} (data : Buffer)
    (length : strnlenUser user pathMax 0 = slen) (occupied : slen ≠ 0) (short : slen ≤ pathMax)
    (small : count ≤ slen + 1) :
    ∃ nul < slen + 1,
      ((kzalloc (slen + 1) data).store (copyFromUser user count).1).bytes nul = 0 := by
  have limits : pathMax + 1 ≤ intMax := by decide
  have stored : (copyFromUser user count).1.length = count := copyFromUser_length (by omega)
  by_cases below : count ≤ slen
  · refine ⟨slen, Nat.lt_succ_self slen, ?_⟩
    rw [store_above _ (by omega)]
    exact kzalloc_zero data (Nat.lt_succ_self slen)
  · -- the user's own NUL is copied
    rcases strnlenUser_cases user pathMax 0 with fault | long | ⟨nul, -, found, stop, mapped⟩
    · exact absurd (length.symm.trans fault) occupied
    · omega
    · refine ⟨nul, by omega, store_inside _ ?_⟩
      rw [copyFromUser_getElem? (by omega) (by omega) fun spot high => mapped spot (by omega) high,
        stop]

/-- The copy fits exactly when it is not reached, or when its buffer was allocated and the caller's
count is at most one more than the string it was sized from, or too large to be copied at all. -/
theorem vfsWritePre_copy_fits_iff (kernel : Kernel) (regs : Registers)
    (zeroed kmalloc : Option Buffer) :
    CopiesFit (fun _ => 0) (vfsWritePre kernel regs zeroed kmalloc).effects ↔
      ¬Copies kernel regs (strnlenUser (kernel.userAt regs.si) pathMax 0) ∨
        zeroed ≠ none ∧
          (regs.dx.toNat ≤ strnlenUser (kernel.userAt regs.si) pathMax 0 + 1 ∨
            intMax < regs.dx.toNat) := by
  generalize length : strnlenUser (kernel.userAt regs.si) pathMax 0 = slen
  by_cases copies : Copies kernel regs slen
  · rw [vfsWritePre_copies length copies]
    obtain ⟨-, -, occupied, short⟩ := id copies
    cases zeroed with
    | none =>
        refine iff_of_false ?_ (by simp [copies])
        simp only [writeCopied]
        split
        · exact id
        · split
          · exact id
          · split <;> exact id
    | some data =>
        rw [writeCopied_fits_iff data kmalloc _ rfl]
        constructor
        · rintro ⟨fits, -⟩
          refine .inr ⟨by simp, ?_⟩
          by_cases small : regs.dx.toNat ≤ intMax
          · rw [copyFromUser_length small] at fits
            exact .inl fits
          · exact .inr (by omega)
        · rintro (refuses | ⟨-, small | large⟩)
          · exact absurd copies refuses
          · have limits : pathMax + 1 ≤ intMax := by decide
            refine ⟨?_, copy_leaves_nul data length occupied short small⟩
            rw [copyFromUser_length (by omega)]
            exact small
          · rw [copyFromUser_refused large]
            exact ⟨Nat.zero_le _, 0, Nat.succ_pos _, kzalloc_zero data (Nat.succ_pos _)⟩
  · refine iff_of_true ?_ (.inl copies)
    obtain ⟨ret, refused⟩ := vfsWritePre_refuses (length ▸ copies) zeroed kmalloc
    rw [refused]
    trivial

def binaryWrite : Kernel where
  file _ := .child ⟨testTxt, by simp [testTxt]⟩ (.root ⟨[47], by simp⟩)
  loff _ := some 0
  dentry _ := .root ⟨[47], by simp⟩
  renamedata _ := (.root ⟨[47], by simp⟩, .root ⟨[47], by simp⟩)
  user spot := some (if spot = 4096 then 65 else if spot = 4097 then 0 else 66)
  comm := ⟨[115, 104], by simp⟩

def binaryRegs (count : UInt64) : Registers := ⟨⟨8, 4096, count, 0, 0, 0⟩, 16⟩

theorem vfsWritePre_copy_overflows :
    ¬ ∀ (kernel : Kernel) (regs : Registers) (data : Buffer) (kmalloc : Option Buffer),
        (kernel.file regs.di).dName.bytes = testTxt →
        CopiesFit (fun _ => 0) (vfsWritePre kernel regs (some data) kmalloc).effects := by
  intro fits
  have here := fits binaryWrite (binaryRegs 4) ⟨1, fun _ => 9⟩ none rfl
  have length : strnlenUser (binaryWrite.userAt 4096) pathMax 0 = 2 := by decide
  have copies : Copies binaryWrite (binaryRegs 4) 2 := ⟨rfl, by decide, by decide, by decide⟩
  rw [vfsWritePre_copies length copies, writeCopied_fits_iff _ _ _ rfl,
    copyFromUser_length (by decide)] at here
  exact absurd here.1 (by decide)

end LearnK.Hook.Main
