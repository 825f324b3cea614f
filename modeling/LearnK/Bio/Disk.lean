import LearnK.Bio.Core
import LearnK.RamBlock.FlatDisk

/-! What the module leaves allocated on each of its ways out, and what it does to the RAM block device
when that is its target. -/

namespace LearnK.Bio

open ByteMemory Ledger RamBlock StepMachine Function

variable {Disk : Type}

def Message.isSubmit : Message → Bool
  | .submit _ => true
  | _ => false

def submissions (log : List Message) : Nat := log.countP Message.isSubmit

structure Holds (held : List Resource) (live : Resource → Bool) (state : State Disk) : Prop where
  counted : submissions state.log = state.bios
  replays : run Ledger.step (fun _ => false) state.events = some live
  owned : Owned (fun _ => false) live (held ++ (List.range state.bios).map .bio)
  others : ∀ number, .bio number ∉ held

section

variable {device : Device Disk} {answers : Answers} {held : List Resource} {live : Resource → Bool}
  {state : State Disk}

theorem Holds.submit (device : Device Disk) (answers : Answers) (holds : Holds held live state)
    (sector : UInt64) (op : ReqOp) :
    ∃ after, Holds held after (submitCustomBio device answers sector op state).2 := by
  unfold submitCustomBio
  split
  · have fresh : .bio state.bios ∉ held ++ (List.range state.bios).map Resource.bio := by
      simp [holds.others]
    have dead : live (.bio state.bios) = false := by
      by_contra alive
      have member := (holds.owned.live_iff (.bio state.bios)).mp (by simpa using alive)
      exact fresh (member.resolve_left (by simp))
    have replays : run Ledger.step (fun _ => false) (state.events ++ [.alloc (.bio state.bios)]) =
        some (update live (.bio state.bios) true) := by
      rw [run_append, holds.replays]
      simp [run_cons, step_alloc dead]
    have owned : Owned (fun _ => false) (update live (.bio state.bios) true)
        (held ++ (List.range (state.bios + 1)).map .bio) := by
      refine (holds.owned.alloc dead).perm ?_
      rw [List.range_succ, List.map_append, ← List.append_assoc]
      exact (List.perm_append_singleton _ _).symm
    have counted : submissions (state.log ++ [.submit sector]) = state.bios + 1 := by
      have before := holds.counted
      unfold submissions at before ⊢
      rw [List.countP_append, before]
      rfl
    refine ⟨update live (.bio state.bios) true, ?_⟩
    split <;> exact ⟨counted, replays, owned, holds.others⟩
  · exact ⟨live, holds⟩

theorem Holds.say (holds : Holds held live state) {message : Message}
    (other : message.isSubmit = false) : Holds held live (state.say message) := by
  refine ⟨?_, holds.replays, holds.owned, holds.others⟩
  have before := holds.counted
  unfold submissions at before ⊢
  rw [State.say, List.countP_append, before]
  simp [other]

theorem Holds.transfer (device : Device Disk) (answers : Answers) (holds : Holds held live state) :
    ∃ after, Holds held after (transferSector device answers state).2 := by
  obtain ⟨written, wrote⟩ := holds.submit device answers 2 .write
  unfold transferSector
  cases first : submitCustomBio device answers 2 .write state with
  | mk ret middle =>
      rw [first] at wrote
      simp only
      split
      · exact ⟨written, wrote.say rfl⟩
      · have said : Holds held written (middle.say .writeSuccess) := wrote.say rfl
        obtain ⟨after, both⟩ := said.submit device answers 2 .read
        cases second : submitCustomBio device answers 2 .read (middle.say .writeSuccess) with
        | mk ret final =>
            rw [second] at both
            simp only
            split
            · exact ⟨after, both.say rfl⟩
            · exact ⟨after, both.say rfl⟩

end

theorem holds_begun (disk : Disk) (readBuffer writeBuffer : Buffer) :
    ∃ live, Holds [.bdev, .readBuffer, .writeBuffer] live ⟨disk, readBuffer, writeBuffer, 0,
      [.alloc .bdev, .alloc .readBuffer, .alloc .writeBuffer], []⟩ := by
  have first : Owned (fun _ => false) (update (fun _ => false) Resource.bdev true) [.bdev] :=
    (Owned.start _).alloc rfl
  have second : Owned (fun _ => false)
      (update (update (fun _ => false) Resource.bdev true) .readBuffer true) [.readBuffer, .bdev] :=
    first.alloc rfl
  have third : Owned (fun _ => false)
      (update (update (update (fun _ => false) Resource.bdev true) .readBuffer true) .writeBuffer true)
      [.writeBuffer, .readBuffer, .bdev] :=
    second.alloc rfl
  exact ⟨_, rfl, rfl,
    third.perm (List.reverse_perm [Resource.bdev, Resource.readBuffer, Resource.writeBuffer]), by simp⟩

/-- On each way out the block device and the two buffers are given back once, as far as they were
obtained, and what stays allocated are exactly the bios that were submitted. -/
theorem myModuleInit_keeps_bios (device : Device Disk) (answers : Answers) (disk : Disk) :
    let outcome := myModuleInit device answers disk
    ∃ live, run Ledger.step (fun _ => false) outcome.events = some live ∧
      (∀ resource, live resource = true ↔
        ∃ number, number < submissions outcome.log ∧ resource = .bio number) ∧
      (FreedOnce outcome.events ↔ submissions outcome.log = 0) := by
  unfold myModuleInit
  split
  · exact ⟨fun _ => false, rfl, by simp [submissions, Message.isSubmit], by simp [FreedOnce, submissions,
      Message.isSubmit]⟩
  · split
    · rename_i readBuffer writeBuffer _ _
      obtain ⟨begun, start⟩ := holds_begun disk readBuffer writeBuffer
      obtain ⟨live, holds⟩ := start.transfer device answers
      cases transferred : transferSector device answers ⟨disk, readBuffer, writeBuffer, 0,
          [.alloc .bdev, .alloc .readBuffer, .alloc .writeBuffer], []⟩ with
      | mk ret state =>
          rw [transferred] at holds
          obtain ⟨after, freed, left⟩ := holds.owned.free_all
          have whole : run Ledger.step (fun _ => false)
              (state.events ++ [.free .bdev, .free .readBuffer, .free .writeBuffer]) = some after := by
            rw [run_append, holds.replays]
            exact freed
          have counted : submissions state.log = state.bios := holds.counted
          refine ⟨after, whole, fun resource => ?_, ?_⟩
          · simp only
            rw [left.live_iff, counted]
            simp [eq_comm]
          · simp only
            rw [left.freedOnce_iff whole fun _ _ => rfl, counted]
            simp
    all_goals
      refine ⟨_, rfl, fun resource => ?_, ?_⟩
      · cases resource <;> simp [update, submissions]
      · simp only [submissions, List.countP_nil, iff_true]
        decide

def oneSector (op : ReqOp) (sector : UInt64) (buffer : Buffer) : Request :=
  ⟨sector, 1, false, op, [⟨512, buffer.bytes, buffer.sized⟩]⟩

/-- The block layer makes one request of each bio and hands it to `ramblock_process_request`, where
`vmalloc` has a block for it; once the request is completed, so is the bio. -/
def OverRamblock (device : Device (Nat → UInt8)) : Prop :=
  ∀ op sector buffer disk, ∃ vmalloc beyond, vmalloc 0 = some beyond ∧
    let result := ramblockProcessRequest vmalloc disk (oneSector op sector buffer)
    result.exit = .completed →
      (device op sector buffer disk).1.bytes = concat result.segments ∧
        (device op sector buffer disk).2 = result.disk

section

variable {device : Device (Nat → UInt8)} (backed : OverRamblock device)

theorem guaranteed_sector (sector : UInt64) (fits : sector.toNat < capacity) {op : ReqOp}
    (transfers : op = .read ∨ op = .write) (buffer : Buffer) :
    (oneSector op sector buffer).Guaranteed := by
  refine ⟨rfl, transfers, ?_, by simp [oneSector], by simp [oneSector, total, sectorSize]⟩
  have small : capacity = 32768 := rfl
  simp only [oneSector, UInt32.reduceToNat]
  omega

theorem sector_prints {vmalloc : Vmalloc} {beyond : List UInt8} (granted : vmalloc 0 = some beyond)
    {op : ReqOp} {sector : UInt64} {buffer : Buffer} {disk : FlatDisk}
    (ended : 0 ∈ disk.carried (oneSector op sector buffer) [] ⟨512, buffer.bytes, buffer.sized⟩) :
    (oneSector op sector buffer).Prints vmalloc disk := by
  intro before segment after shape
  obtain ⟨rfl, rfl, rfl⟩ : before = [] ∧ segment = ⟨512, buffer.bytes, buffer.sized⟩ ∧ after = [] := by
    cases before with
    | nil => simpa [oneSector, eq_comm] using shape
    | cons first rest => simp [oneSector] at shape
  rw [List.length_nil, granted]
  simp [printable, ended]

include backed

theorem device_write (sector : UInt64) (fits : sector.toNat < capacity) {buffer : Buffer}
    (ended : 0 ∈ buffer.bytes) (disk : Nat → UInt8) :
    ∃ kept, device .write sector buffer disk =
      (kept, blit disk (sectorSize * sector.toNat) buffer.bytes) := by
  obtain ⟨vmalloc, beyond, granted, served⟩ := backed .write sector buffer disk
  have inside : (oneSector .write sector buffer).fits := fits
  have faithful := (processRequest_faithful_iff vmalloc disk
    (guaranteed_sector sector fits (.inr rfl) buffer)).mpr fun _ => sector_prints granted ended
  obtain ⟨-, stored⟩ := served (faithful.inRange inside)
  have written := (faithful.write inside rfl).2
  refine ⟨(device .write sector buffer disk).1, Prod.ext rfl (stored.trans (written.trans ?_))⟩
  simp [oneSector, concat, Request.start]

theorem device_read (sector : UInt64) (fits : sector.toNat < capacity) (buffer : Buffer)
    {disk : Nat → UInt8} (ended : 0 ∈ slice disk (sectorSize * sector.toNat) sectorSize) :
    ∃ filled, device .read sector buffer disk = (filled, disk) ∧
      filled.bytes = slice disk (sectorSize * sector.toNat) sectorSize := by
  obtain ⟨vmalloc, beyond, granted, served⟩ := backed .read sector buffer disk
  have inside : (oneSector .read sector buffer).fits := fits
  have promised := guaranteed_sector sector fits (.inl rfl) buffer
  have carried : (flatten disk).carried (oneSector .read sector buffer) []
      ⟨512, buffer.bytes, buffer.sized⟩ = slice disk (sectorSize * sector.toNat) sectorSize := by
    have range := Request.range_fits inside
    simp only [oneSector, Request.start, UInt32.reduceToNat, Nat.one_mul] at range
    rw [← flatten_read disk range]
    rfl
  have faithful := (processRequest_faithful_iff vmalloc disk promised).mpr fun _ =>
    sector_prints granted (carried ▸ ended)
  obtain ⟨data, stored⟩ := served (faithful.inRange inside)
  obtain ⟨same, -, read⟩ := faithful.read inside rfl
  refine ⟨(device .read sector buffer disk).1, Prod.ext rfl (stored.trans same),
    data.trans (read.trans ?_)⟩
  simp only [oneSector, Request.start, UInt32.reduceToNat, Nat.one_mul]

end

theorem greet_text (stale : Buffer) : stale.greet.text = greeting.dropLast := by
  rw [Buffer.text, Buffer.greet]
  rfl

/-- With the RAM block device as its target and every allocation granted, the module reads back what
it wrote: it logs the greeting and returns 0.  On the device the sector, and nothing else, changes: to
the greeting with its NUL and after it whatever was in the buffer that `kmalloc` gave. -/
theorem bio_over_ramblock (device : Device (Nat → UInt8)) (backed : OverRamblock device)
    (answers : Answers) (readBuffer writeBuffer : Buffer) (disk : Nat → UInt8)
    (opened : 0 ≤ answers.blkdevGet) (reads : answers.kmallocRead = some readBuffer)
    (writes : answers.kmallocWrite = some writeBuffer)
    (granted : ∀ number, answers.bioAlloc number = true) :
    (myModuleInit device answers disk).ret = 0 ∧
      (myModuleInit device answers disk).log =
        [.submit 2, .writeSuccess, .submit 2, .readSector greeting.dropLast] ∧
      (myModuleInit device answers disk).disk =
        blit disk 1024 (greeting ++ writeBuffer.bytes.drop 14) := by
  have place : sectorSize * UInt64.toNat 2 = 1024 := by decide
  have ended : 0 ∈ writeBuffer.greet.bytes := List.mem_append_left _ (by decide)
  have whole : slice (blit disk 1024 writeBuffer.greet.bytes) 1024 sectorSize =
      writeBuffer.greet.bytes := by
    have same := slice_blit_same disk 1024 writeBuffer.greet.bytes
    rw [writeBuffer.greet.sized] at same
    exact same
  obtain ⟨kept, write⟩ := device_write backed 2 (by decide) ended disk
  have readable : 0 ∈ slice (blit disk 1024 writeBuffer.greet.bytes) (sectorSize * UInt64.toNat 2)
      sectorSize := by
    rw [place, whole]
    exact ended
  obtain ⟨filled, read, bytes⟩ := device_read backed 2 (by decide) readBuffer readable
  rw [place] at write bytes
  have text : filled.text = greeting.dropLast := by
    rw [Buffer.text, bytes, whole]
    exact greet_text writeBuffer
  rw [myModuleInit, if_neg (Int.not_lt.mpr opened)]
  simp only [reads, writes, transferSector, submitCustomBio, granted, State.say, if_true, reduceCtorEq,
    if_false, write, read, text, ne_eq, not_true_eq_false]
  exact ⟨trivial, rfl, rfl⟩

theorem zeroBytes_length : (List.replicate 512 (0 : UInt8)).length = sectorSize := List.length_replicate

def zeroBuffer : Buffer := ⟨List.replicate 512 0, zeroBytes_length⟩

/-- The RAM block device whose blocks of log fill their page. -/
def ramDevice : Device (Nat → UInt8) := fun op sector buffer disk =>
  let result := ramblockProcessRequest (fun _ => some []) disk (oneSector op sector buffer)
  match result.segments with
  | [segment] =>
      if sized : segment.buffer.length = sectorSize then (⟨segment.buffer, sized⟩, result.disk)
      else (buffer, result.disk)
  | _ => (buffer, result.disk)

theorem overRamblock_ramDevice : OverRamblock ramDevice := by
  intro op sector buffer disk
  refine ⟨fun _ => some [], [], rfl, fun completed => ?_⟩
  have loop := processRequest_completed completed
  rw [loop] at completed
  obtain ⟨-, -, -, kept⟩ := processSegments_cons completed
  have only : (ramblockProcessRequest (fun _ => some []) disk (oneSector op sector buffer)).segments =
      [BioVec.carried op disk (oneSector op sector buffer).offset ⟨512, buffer.bytes, buffer.sized⟩] := by
    rw [loop, ← moveSegment_segment (some [])]
    exact kept
  have length : (BioVec.carried op disk (oneSector op sector buffer).offset
      ⟨512, buffer.bytes, buffer.sized⟩).bvLen = 512 := by
    cases op <;> rfl
  have sized : (BioVec.carried op disk (oneSector op sector buffer).offset
      ⟨512, buffer.bytes, buffer.sized⟩).buffer.length = sectorSize :=
    (BioVec.sized _).trans (congrArg UInt32.toNat length)
  unfold ramDevice
  simp only [only]
  rw [dif_pos sized]
  exact ⟨by simp [concat], rfl⟩

theorem bio_over_ramblock_zeroes :
    (myModuleInit ramDevice ⟨0, some zeroBuffer, some zeroBuffer, fun _ => true⟩ fun _ => 9).ret = 0 ∧
    (myModuleInit ramDevice ⟨0, some zeroBuffer, some zeroBuffer, fun _ => true⟩ fun _ => 9).log =
      [.submit 2, .writeSuccess, .submit 2, .readSector greeting.dropLast] ∧
    (myModuleInit ramDevice ⟨0, some zeroBuffer, some zeroBuffer, fun _ => true⟩ fun _ => 9).disk =
      blit (fun _ => 9) 1024 (greeting ++ zeroBuffer.bytes.drop 14) :=
  bio_over_ramblock ramDevice overRamblock_ramDevice
    ⟨0, some zeroBuffer, some zeroBuffer, fun _ => true⟩ zeroBuffer zeroBuffer (fun _ => 9)
    (Int.le_refl 0) rfl rfl fun _ => rfl

end LearnK.Bio
