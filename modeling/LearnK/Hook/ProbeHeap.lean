import LearnK.Hook.Probes

/-! The buffers of the file-operation probes: what each handler allocates and frees, along any
sequence of probed operations. -/

namespace LearnK.Hook.Main

open StepMachine Ledger
open LearnK.RbTree (Addr)

def Effect.ledger : Effect → List (Event Addr)
  | .kmalloc buffer _ => [.alloc buffer]
  | .kfree (some buffer) => [.free buffer.addr]
  | _ => []

def Outcome.ledger (outcome : Outcome) : List (Event Addr) := outcome.effects.flatMap Effect.ledger

inductive Probe
  | writePre (kernel : Kernel) (regs : Registers) (zeroed kmalloc : Option Buffer)
  | writePost (kernel : Kernel) (regs : Registers) (kmalloc : Option Buffer)
  | renamePre (kernel : Kernel) (regs : Registers)
  | unlinkPre (kernel : Kernel) (regs : Registers) (kmalloc : Option Buffer)

def Probe.outcome : Probe → Outcome
  | .writePre kernel regs zeroed kmalloc => vfsWritePre kernel regs zeroed kmalloc
  | .writePost kernel regs kmalloc => vfsWritePost kernel regs kmalloc
  | .renamePre kernel regs => vfsRenamePre kernel regs
  | .unlinkPre kernel regs kmalloc => vfsUnlinkPre kernel regs kmalloc

def blocks (buffer : Option Buffer) : List Addr := buffer.toList.map Buffer.addr

def Probe.answers : Probe → List Addr
  | .writePre _ _ zeroed kmalloc => blocks zeroed ++ blocks kmalloc
  | .writePost _ _ kmalloc => blocks kmalloc
  | .renamePre _ _ => []
  | .unlinkPre _ _ kmalloc => blocks kmalloc

def Probe.Fresh (probe : Probe) (live : Finset Addr) : Prop :=
  probe.answers.Nodup ∧ ∀ block ∈ probe.answers, block ∉ live

instance (probe : Probe) (live : Finset Addr) : Decidable (probe.Fresh live) :=
  inferInstanceAs (Decidable (_ ∧ _))

def probeStep (live : Finset Addr) (probe : Probe) : Option (Finset Addr) :=
  if probe.Fresh live ∧ probe.outcome.ret.isSome then some (settle live probe.outcome.ledger)
  else none

/-- The two branches that drop a path: `vfs_write_post` on another file, `vfs_unlink_pre` on
`test.txt`. -/
def Probe.Leaks : Probe → Prop
  | .writePost kernel regs kmalloc =>
      (kernel.file regs.di).dName.bytes ≠ testTxt ∧ kmalloc.isSome
  | .unlinkPre kernel regs kmalloc =>
      (kernel.dentry regs.dx).dName.bytes = testTxt ∧ kmalloc.isSome
  | _ => False

@[simp] theorem ledger_allocated (buffer : Option Buffer) (size : Nat) :
    (allocated buffer size).flatMap Effect.ledger = (blocks buffer).map .alloc := by
  cases buffer <;> rfl

@[simp] theorem ledger_copy (data : Option Buffer) (stored : List UInt8) :
    (Effect.copy data stored).ledger = [] := rfl

@[simp] theorem ledger_print (line : Line) : (Effect.print line).ledger = [] := rfl

@[simp] theorem ledger_kfree (buffer : Option Buffer) :
    (Effect.kfree buffer).ledger = (blocks buffer).map .free := by
  cases buffer <;> rfl

@[simp] theorem blocks_kzalloc (size : Nat) (buffer : Option Buffer) :
    blocks (buffer.map (kzalloc size)) = blocks buffer := by
  cases buffer <;> rfl

@[simp] theorem blocks_absolutePath (kmalloc : Option Buffer) (d : Dentry) :
    blocks (absolutePath kmalloc d) = blocks kmalloc := by
  cases kmalloc <;> rfl

theorem writeCopied_ledger {kernel : Kernel} {regs : Registers} {slen : Nat}
    {zeroed kmalloc : Option Buffer}
    (returned : (writeCopied kernel regs slen zeroed kmalloc).ret.isSome) :
    ∃ taken : List Addr, taken.Sublist (blocks zeroed ++ blocks kmalloc) ∧
      (writeCopied kernel regs slen zeroed kmalloc).ledger = taken.map .alloc ++ taken.map .free := by
  simp only [writeCopied] at returned ⊢
  split at returned
  · simp at returned
  · rename_i mapped
    rw [if_neg mapped]
    split at returned
    · -- the user copy failed, and only `data` was allocated
      rename_i failed
      rw [if_pos failed]
      refine ⟨blocks zeroed, List.sublist_append_left _ _, ?_⟩
      simp [Outcome.ledger]
    · rename_i whole
      rw [if_neg whole]
      cases position : kernel.loff regs.cx with
      | none => simp [position] at returned
      | some pos =>
          refine ⟨blocks zeroed ++ blocks kmalloc, List.Sublist.refl _, ?_⟩
          simp [Outcome.ledger]

theorem Probe.ledger_returned {probe : Probe} (returned : probe.outcome.ret.isSome)
    (keeps : ¬probe.Leaks) :
    ∃ taken : List Addr, taken.Sublist probe.answers ∧
      probe.outcome.ledger = taken.map .alloc ++ taken.map .free := by
  have nothing (outcome : Outcome) (quiet : outcome.ledger = []) :
      ∃ taken : List Addr, taken.Sublist probe.answers ∧
        outcome.ledger = taken.map .alloc ++ taken.map .free :=
    ⟨[], List.nil_sublist _, quiet⟩
  cases probe with
  | writePre kernel regs zeroed kmalloc =>
      by_cases copies : Copies kernel regs (strnlenUser (kernel.userAt regs.si) pathMax 0)
      · simp only [Probe.outcome, vfsWritePre_copies rfl copies] at returned ⊢
        exact writeCopied_ledger returned
      · obtain ⟨ret, refused⟩ := vfsWritePre_refuses copies zeroed kmalloc
        exact nothing _ (by simp only [Probe.outcome, refused]; rfl)
  | writePost kernel regs kmalloc =>
      by_cases named : (kernel.file regs.di).dName.bytes = testTxt
      · refine ⟨blocks kmalloc, List.Sublist.refl _, ?_⟩
        simp [Probe.outcome, vfsWritePost, named, Outcome.ledger]
      · have failed : kmalloc = none := by
          simpa [Probe.Leaks, named] using keeps
        refine nothing _ ?_
        simp [Probe.outcome, vfsWritePost, named, failed, Outcome.ledger, blocks]
  | renamePre kernel regs =>
      refine nothing _ ?_
      simp only [Probe.outcome, vfsRenamePre]
      split <;> rfl
  | unlinkPre kernel regs kmalloc =>
      refine nothing _ ?_
      by_cases named : (kernel.dentry regs.dx).dName.bytes = testTxt
      · have failed : kmalloc = none := by
          simpa [Probe.Leaks, named] using keeps
        simp [Probe.outcome, vfsUnlinkPre, named, failed, Outcome.ledger, blocks]
      · simp [Probe.outcome, vfsUnlinkPre, named, Outcome.ledger]

theorem Probe.Leaks.not_freedOnce {probe : Probe} (leaks : probe.Leaks) :
    ¬FreedOnce probe.outcome.ledger := by
  have alone (block : Addr) : ¬FreedOnce [Event.alloc block] := by
    rintro ⟨freed, -⟩
    simp [frees] at freed
  cases probe with
  | writePre kernel regs zeroed kmalloc => exact leaks.elim
  | renamePre kernel regs => exact leaks.elim
  | writePost kernel regs kmalloc =>
      obtain ⟨named, given⟩ := leaks
      obtain ⟨buffer, rfl⟩ := Option.isSome_iff_exists.mp given
      have dropped : (vfsWritePost kernel regs (some buffer)).ledger = [.alloc buffer.addr] := by
        simp [vfsWritePost, named, Outcome.ledger, blocks]
      rw [Probe.outcome, dropped]
      exact alone buffer.addr
  | unlinkPre kernel regs kmalloc =>
      obtain ⟨named, given⟩ := leaks
      obtain ⟨buffer, rfl⟩ := Option.isSome_iff_exists.mp given
      have dropped : (vfsUnlinkPre kernel regs (some buffer)).ledger = [.alloc buffer.addr] := by
        simp [vfsUnlinkPre, named, Outcome.ledger, blocks]
      rw [Probe.outcome, dropped]
      exact alone buffer.addr

theorem probeStep_some {live next : Finset Addr} {probe : Probe}
    (stepped : probeStep live probe = some next) :
    probe.Fresh live ∧ probe.outcome.ret.isSome ∧ next = settle live probe.outcome.ledger := by
  simp only [probeStep] at stepped
  split at stepped
  · rename_i allowed
    exact ⟨allowed.1, allowed.2, (Option.some.inj stepped).symm⟩
  · simp at stepped

theorem probeStep_balanced {live next : Finset Addr} {probe : Probe} (keeps : ¬probe.Leaks)
    (stepped : probeStep live probe = some next) :
    FreedOnce probe.outcome.ledger ∧ next = live := by
  obtain ⟨⟨distinct, fresh⟩, returned, rfl⟩ := probeStep_some stepped
  obtain ⟨taken, among, balanced⟩ := Probe.ledger_returned returned keeps
  rw [balanced]
  exact ⟨freedOnce_returned (distinct.sublist among),
    settle_returned fun block member => fresh block (among.subset member)⟩

/-- Along every run of the probes, each handler frees what it allocated exactly once and the live
buffers stay those of load time, exactly when no handler takes one of the two branches. -/
theorem probes_balanced_iff (load : Finset Addr) (probes : List Probe) :
    (EachStep probeStep (fun _ probe => FreedOnce probe.outcome.ledger) load probes ∧
        Always probeStep (fun live => live = load) load probes) ↔
      EachStep probeStep (fun _ probe => ¬probe.Leaks) load probes := by
  constructor
  · rintro ⟨freed, -⟩
    exact freed.imp (fun _ _ _ _ _ => trivial)
      (fun _ _ _ (_ : True) _ once leaks => leaks.not_freedOnce once) trivial
  · intro keeps
    refine ⟨?_, ?_⟩
    · induction probes generalizing load with
      | nil => trivial
      | cons probe rest ih =>
          intro next stepped
          obtain ⟨here, later⟩ := keeps next stepped
          exact ⟨(probeStep_balanced here stepped).1, ih next later⟩
    · have kept (live : Finset Addr) (probe : Probe) (next : Finset Addr) (here : ¬probe.Leaks)
          (same : live = load) (stepped : probeStep live probe = some next) : next = load :=
        (probeStep_balanced here stepped).2.trans same
      exact always_eachStep kept (fun _ same => same) rfl keeps

theorem probes_leak_path :
    ¬ ∀ (load : Finset Addr) (probes : List Probe),
        EachStep probeStep (fun _ probe => FreedOnce probe.outcome.ledger) load probes ∧
          Always probeStep (fun live => live = load) load probes := by
  intro balanced
  have freed := (balanced ∅ [.writePost { binaryWrite with file := fun _ => .root ⟨[47], by simp⟩ }
    (binaryRegs 4) (some ⟨1, fun _ => 9⟩)]).1
  have once := (freed {1} (by decide)).1
  exact absurd once (by decide)

end LearnK.Hook.Main
