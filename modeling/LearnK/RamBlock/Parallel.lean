import LearnK.Lib.Independent
import LearnK.RamBlock.FlatDisk
import Mathlib.Data.List.FinRange

/-! Requests in flight at once.  `ramblock_process_request` takes no lock, so the bytes of its copies
can interleave with those of other requests.  Requests that write none of each other's bytes do not
notice: each ends as it would have ended alone. -/

namespace LearnK.RamBlock

open ByteMemory Independent

/-- A request in the middle of its copies: the segment it is at is the first of `rest`, the bytes of
it that were moved are in `moved`, and `done` are the bytes of the segments before it. -/
structure Transfer where
  op : ReqOp
  vmalloc : Vmalloc
  offset : UInt32
  moved : List UInt8
  rest : List BioVec
  done : List UInt8
  exit : Option Exit

def Transfer.leave (transfer : Transfer) (exit : Exit) : Transfer := { transfer with exit := some exit }

def Transfer.data (transfer : Transfer) : List UInt8 := transfer.done ++ concat transfer.rest

def Transfer.address (transfer : Transfer) : Nat := transfer.offset.toNat + transfer.moved.length

def Transfer.took (transfer : Transfer) (byte : UInt8) : Transfer :=
  { transfer with moved := transfer.moved ++ [byte] }

def Transfer.copied (transfer : Transfer) (segment : BioVec) : List UInt8 :=
  if transfer.op = .read then transfer.moved else segment.buffer

def Transfer.next (transfer : Transfer) (segment : BioVec) (rest : List BioVec) : Transfer :=
  { transfer with
    vmalloc := transfer.vmalloc.later
    offset := transfer.offset + segment.bvLen
    moved := []
    rest := rest
    done := transfer.done ++ transfer.copied segment }

def Transfer.start (vmalloc : Vmalloc) (request : Request) : Transfer where
  op := request.op
  vmalloc := vmalloc
  offset := (request.pos * UInt64.ofNat sectorSize).toUInt32
  moved := []
  rest := request.segments
  done := []
  exit :=
    if request.pos + request.sectors.toUInt64 > UInt64.ofNat capacity then some .outOfCapacity
    else if request.passthrough then some .passthrough
    else none

def transferStep : (Nat → UInt8) × Transfer → (Nat → UInt8) × Transfer
  | (disk, transfer) =>
      match transfer.exit, transfer.rest with
      | some _, _ => (disk, transfer)
      | none, [] => (disk, transfer.leave .completed)
      | none, segment :: rest =>
          if transfer.offset + segment.bvLen > UInt32.ofNat ramblockSize then
            (disk, transfer.leave .segmentOutOfRange)
          else if transfer.op = .other then (disk, transfer.next segment rest)
          else if transfer.moved.length < segment.bvLen.toNat then
            if ramblockSize ≤ transfer.address then (disk, transfer.leave .oops)
            else if transfer.op = .read then (disk, transfer.took (disk transfer.address))
            else
              (blit disk transfer.address [segment.buffer.getD transfer.moved.length 0],
                transfer.took (segment.buffer.getD transfer.moved.length 0))
          else if printable (transfer.vmalloc 0) (transfer.copied segment) then
            (disk, transfer.next segment rest)
          else (disk, (transfer.next segment rest).leave .oops)

structure Transfer.Within (first last : Nat) (transfer : Transfer) : Prop where
  transfers : transfer.op = .read ∨ transfer.op = .write
  low : first ≤ transfer.offset.toNat
  high : transfer.offset.toNat + total transfer.rest ≤ last
  short : ∀ segment rest, transfer.rest = segment :: rest → transfer.moved.length ≤ segment.bvLen.toNat
  started : transfer.rest = [] → transfer.moved = []

def Transfer.InRange (op : ReqOp) (first last : Nat) (transfer : Transfer) : Prop :=
  transfer.op = op ∧ (transfer.exit = none → transfer.Within first last)

inductive Phase (transfer : Transfer) : Prop
  | left (gone : transfer.exit ≠ none)
      (steps : ∀ disk, transferStep (disk, transfer) = (disk, transfer))
  | completes (running : transfer.exit = none) (nothing : transfer.rest = [])
      (steps : ∀ disk, transferStep (disk, transfer) = (disk, transfer.leave .completed))
  | reads (segment : BioVec) (rest : List BioVec) (running : transfer.exit = none)
      (found : transfer.rest = segment :: rest) (op : transfer.op = .read)
      (more : transfer.moved.length < segment.bvLen.toNat)
      (steps : ∀ disk, transferStep (disk, transfer) = (disk, transfer.took (disk transfer.address)))
  | writes (segment : BioVec) (rest : List BioVec) (byte : UInt8) (running : transfer.exit = none)
      (found : transfer.rest = segment :: rest) (op : transfer.op = .write)
      (here : segment.buffer[transfer.moved.length]? = some byte)
      (steps : ∀ disk, transferStep (disk, transfer) =
        (blit disk transfer.address [byte], transfer.took byte))
  | prints (segment : BioVec) (rest : List BioVec) (running : transfer.exit = none)
      (found : transfer.rest = segment :: rest)
      (whole : transfer.moved.length = segment.bvLen.toNat)
      (logged : printable (transfer.vmalloc 0) (transfer.copied segment) = true)
      (steps : ∀ disk, transferStep (disk, transfer) = (disk, transfer.next segment rest))
  | faults (segment : BioVec) (rest : List BioVec) (running : transfer.exit = none)
      (found : transfer.rest = segment :: rest)
      (whole : transfer.moved.length = segment.bvLen.toNat)
      (unlogged : printable (transfer.vmalloc 0) (transfer.copied segment) = false)
      (steps : ∀ disk, transferStep (disk, transfer) = (disk, (transfer.next segment rest).leave .oops))

section

variable {first last : Nat} (bounded : last ≤ ramblockSize)

theorem Transfer.Within.fits {transfer : Transfer} (within : transfer.Within first last)
    {segment : BioVec} {rest : List BioVec} (found : transfer.rest = segment :: rest) :
    transfer.offset.toNat + segment.bvLen.toNat + total rest ≤ last := by
  have high := within.high
  rw [found, total, List.map_cons, List.sum_cons] at high
  rw [total]
  omega

include bounded

theorem Transfer.InRange.phase {op : ReqOp} {transfer : Transfer}
    (confined : transfer.InRange op first last) : Phase transfer := by
  cases exit : transfer.exit with
  | some left =>
      refine .left (by simp [exit]) fun disk => ?_
      simp only [transferStep, exit]
  | none =>
      have within := confined.2 exit
      cases found : transfer.rest with
      | nil =>
          refine .completes exit found fun disk => ?_
          simp only [transferStep, exit, found]
      | cons segment rest =>
          have fits := within.fits found
          have inRange : ¬transfer.offset + segment.bvLen > UInt32.ofNat ramblockSize :=
            offset_in_range (by omega)
          have other : transfer.op ≠ .other := by
            rcases within.transfers with same | same <;> simp [same]
          by_cases more : transfer.moved.length < segment.bvLen.toNat
          · have inside : ¬ramblockSize ≤ transfer.address := by
              unfold Transfer.address
              omega
            rcases within.transfers with reads | writes
            · refine .reads segment rest exit found reads more fun disk => ?_
              simp only [transferStep, exit, found, inRange, more, inside, reads, reduceCtorEq, if_false,
                if_true]
            · have here : segment.buffer[transfer.moved.length]? =
                  some (segment.buffer.getD transfer.moved.length 0) := by
                rw [List.getD_eq_getElem?_getD, List.getElem?_eq_getElem
                  (by rw [segment.sized]; exact more)]
                rfl
              refine .writes segment rest _ exit found writes here fun disk => ?_
              simp only [transferStep, exit, found, inRange, more, inside, writes, reduceCtorEq, if_false,
                if_true]
          · have short := within.short segment rest found
            have whole : transfer.moved.length = segment.bvLen.toNat := by omega
            cases logged : printable (transfer.vmalloc 0) (transfer.copied segment) with
            | true =>
                refine .prints segment rest exit found whole logged fun disk => ?_
                simp only [transferStep, exit, found, inRange, more, other, logged, if_false, if_true]
            | false =>
                refine .faults segment rest exit found whole logged fun disk => ?_
                simp only [transferStep, exit, found, inRange, more, other, logged, if_false,
                  Bool.false_eq_true]

theorem Transfer.InRange.step {op : ReqOp} {transfer : Transfer} (disk : Nat → UInt8)
    (confined : transfer.InRange op first last) :
    (transferStep (disk, transfer)).2.InRange op first last := by
  cases confined.phase bounded with
  | left gone steps =>
      rw [steps]
      exact confined
  | completes running nothing steps =>
      rw [steps]
      exact ⟨confined.1, fun absurd => by simp [Transfer.leave] at absurd⟩
  | reads segment rest running found reads more steps =>
      have within := confined.2 running
      rw [steps]
      refine ⟨confined.1, fun _ => { within with short := ?_, started := ?_ }⟩
      · intro other rest' same
        obtain ⟨rfl, -⟩ := List.cons.inj (found.symm.trans same)
        simp only [Transfer.took, List.length_append, List.length_singleton]
        omega
      · intro nothing
        simp [Transfer.took, found] at nothing
  | writes segment rest byte running found writes here steps =>
      have within := confined.2 running
      have more := (List.getElem?_eq_some_iff.mp here).1
      rw [segment.sized] at more
      rw [steps]
      refine ⟨confined.1, fun _ => { within with short := ?_, started := ?_ }⟩
      · intro other rest' same
        obtain ⟨rfl, -⟩ := List.cons.inj (found.symm.trans same)
        simp only [Transfer.took, List.length_append, List.length_singleton]
        omega
      · intro nothing
        simp [Transfer.took, found] at nothing
  | prints segment rest running found whole logged steps =>
      have within := confined.2 running
      have fits := within.fits found
      have sum : (transfer.offset + segment.bvLen).toNat = transfer.offset.toNat + segment.bvLen.toNat :=
        offset_add_toNat (by omega)
      have low := within.low
      rw [steps]
      refine ⟨confined.1, fun _ => ⟨within.transfers, ?_, ?_, ?_, fun _ => rfl⟩⟩
      · simp only [Transfer.next]
        omega
      · simp only [Transfer.next]
        omega
      · intro other rest' _
        exact Nat.zero_le _
  | faults segment rest running found whole unlogged steps =>
      rw [steps]
      exact ⟨confined.1, fun absurd => by simp [Transfer.leave] at absurd⟩

theorem confined_transfer (op : ReqOp) :
    Confined transferStep (Transfer.InRange op first last)
      {address | first ≤ address ∧ address < last}
      {address | op = .write ∧ first ≤ address ∧ address < last} where
  valid disk transfer confined := confined.step bounded disk
  locals disk other transfer confined agree := by
    cases confined.phase bounded with
    | reads segment rest running found reads more steps =>
        have within := confined.2 running
        have fits := within.fits found
        have low := within.low
        have here : disk transfer.address = other transfer.address :=
          agree ⟨by unfold Transfer.address; omega, by unfold Transfer.address; omega⟩
        rw [steps, steps, here]
    | left _ steps => rw [steps, steps]
    | completes _ _ steps => rw [steps, steps]
    | writes _ _ _ _ _ _ _ steps => rw [steps, steps]
    | prints _ _ _ _ _ _ steps => rw [steps, steps]
    | faults _ _ _ _ _ _ steps => rw [steps, steps]
  memory disk other transfer confined agree := by
    cases confined.phase bounded with
    | writes segment rest byte running found writes here steps =>
        intro address inside
        rw [steps, steps]
        simp only [blit]
        split
        · exact agree inside
        · rw [agree inside]
    | left _ steps => rw [steps, steps]; exact agree
    | completes _ _ steps => rw [steps, steps]; exact agree
    | reads _ _ _ _ _ _ steps => rw [steps, steps]; exact agree
    | prints _ _ _ _ _ _ steps => rw [steps, steps]; exact agree
    | faults _ _ _ _ _ _ steps => rw [steps, steps]; exact agree
  frame disk transfer confined address outside := by
    cases confined.phase bounded with
    | writes segment rest byte running found writes here steps =>
        have within := confined.2 running
        have fits := within.fits found
        have low := within.low
        have more := (List.getElem?_eq_some_iff.mp here).1
        rw [segment.sized] at more
        have range : ¬(first ≤ address ∧ address < last) := fun range =>
          outside ⟨confined.1 ▸ writes, range⟩
        rw [steps]
        by_cases below : address < transfer.address
        · exact blit_below disk _ below
        · refine blit_above disk _ ?_
          unfold Transfer.address at below ⊢
          simp only [List.length_singleton]
          omega
    | left _ steps => rw [steps]
    | completes _ _ steps => rw [steps]
    | reads _ _ _ _ _ _ steps => rw [steps]
    | prints _ _ _ _ _ _ steps => rw [steps]
    | faults _ _ _ _ _ _ steps => rw [steps]

end

/-- The bytes moved so far are those of the disk: a read has them, a write has left them there. -/
def Transfer.Sound (disk : Nat → UInt8) (transfer : Transfer) : Prop :=
  ∀ segment rest, transfer.exit = none → transfer.rest = segment :: rest →
    (transfer.op = .read →
      transfer.moved = slice disk transfer.offset.toNat transfer.moved.length) ∧
    (transfer.op = .write →
      blit disk transfer.offset.toNat (segment.buffer.take transfer.moved.length) = disk)

structure Ending where
  exit : Exit
  disk : Nat → UInt8
  data : List UInt8

def Result.ending (result : Result) : Ending := ⟨result.exit, result.disk, concat result.segments⟩

def Transfer.finish (disk : Nat → UInt8) (transfer : Transfer) : Ending :=
  match transfer.exit with
  | some exit => ⟨exit, disk, transfer.data⟩
  | none =>
      let result := processSegments transfer.op transfer.vmalloc transfer.rest transfer.offset disk
      ⟨result.exit, result.disk, transfer.done ++ concat result.segments⟩

def Transfer.left (transfer : Transfer) : Nat :=
  match transfer.exit with
  | some _ => 0
  | none => (transfer.rest.map fun segment => segment.bvLen.toNat + 1).sum + 1 - transfer.moved.length

theorem Transfer.finish_start (vmalloc : Vmalloc) (disk : Nat → UInt8) (request : Request) :
    (Transfer.start vmalloc request).finish disk =
      (ramblockProcessRequest vmalloc disk request).ending := by
  unfold Transfer.finish Transfer.start ramblockProcessRequest
  simp only
  split_ifs <;> rfl

theorem blit_again (disk : Nat → UInt8) (start : Nat) (bytes : List UInt8) :
    blit (blit disk start bytes) start bytes = blit disk start bytes := by
  refine blit_covers fun address outside => ?_
  by_cases below : address < start
  · exact blit_below disk bytes below
  · exact blit_above disk bytes (by omega)

theorem processSegments_redone {vmalloc : Vmalloc} {segment : BioVec} (rest : List BioVec)
    {offset : UInt32} (disk : Nat → UInt8) {index : Nat} {byte : UInt8}
    (inRange : ¬offset + segment.bvLen > UInt32.ofNat ramblockSize)
    (here : segment.buffer[index]? = some byte) :
    processSegments .write vmalloc (segment :: rest) offset (blit disk (offset.toNat + index) [byte]) =
      processSegments .write vmalloc (segment :: rest) offset disk := by
  have bound := (List.getElem?_eq_some_iff.mp here).1
  have covered : blit (blit disk (offset.toNat + index) [byte]) offset.toNat segment.buffer =
      blit disk offset.toNat segment.buffer := by
    refine blit_covers fun address outside => ?_
    by_cases below : address < offset.toNat + index
    · exact blit_below disk _ below
    · exact blit_above disk _ (by rw [List.length_singleton]; omega)
  have moved : moveSegment (vmalloc 0) .write offset (blit disk (offset.toNat + index) [byte]) segment =
      moveSegment (vmalloc 0) .write offset disk segment := by
    simp only [moveSegment, covered]
  rw [processSegments, processSegments, if_neg inRange, if_neg inRange, moved]

section

variable {first last : Nat} (bounded : last ≤ ramblockSize)

include bounded

theorem Transfer.Sound.step {op : ReqOp} {disk : Nat → UInt8} {transfer : Transfer}
    (inRange : transfer.InRange op first last) (sound : transfer.Sound disk) :
    (transferStep (disk, transfer)).2.Sound (transferStep (disk, transfer)).1 := by
  cases inRange.phase bounded with
  | left gone steps =>
      rw [steps]
      exact sound
  | completes running nothing steps =>
      rw [steps]
      intro segment rest running'
      simp [Transfer.leave] at running'
  | reads segment rest running found reads more steps =>
      have before := (sound segment rest running found).1 reads
      rw [steps]
      intro other rest' _ _
      refine ⟨fun _ => ?_, fun writes => by simp [Transfer.took, reads] at writes⟩
      simp only [Transfer.took, Transfer.address, List.length_append, List.length_singleton]
      rw [slice_append, ← before]
      rfl
  | writes segment rest byte running found writes here steps =>
      have before := (sound segment rest running found).2 writes
      have stored := blit_take_succ disk transfer.offset.toNat here
      rw [before] at stored
      rw [steps]
      intro other rest' _ found'
      obtain ⟨rfl, -⟩ := List.cons.inj (found.symm.trans found')
      refine ⟨fun reads => by simp [Transfer.took, writes] at reads, fun _ => ?_⟩
      simp only [Transfer.took, Transfer.address, List.length_append, List.length_singleton]
      rw [stored]
      exact blit_again disk _ _
  | prints segment rest running found whole logged steps =>
      rw [steps]
      intro other rest' _ _
      exact ⟨fun _ => rfl, fun _ => blit_nil disk _⟩
  | faults segment rest running found whole unlogged steps =>
      rw [steps]
      intro other rest' running'
      simp [Transfer.leave] at running'

omit bounded in
theorem Transfer.Sound.moved {op : ReqOp} {disk : Nat → UInt8} {transfer : Transfer}
    (inRange : transfer.InRange op first last) (sound : transfer.Sound disk) {segment : BioVec}
    {rest : List BioVec} (running : transfer.exit = none) (found : transfer.rest = segment :: rest)
    (whole : transfer.moved.length = segment.bvLen.toNat) (inside : last ≤ ramblockSize) :
    let moved := moveSegment (transfer.vmalloc 0) transfer.op transfer.offset disk segment
    moved.disk = disk ∧ moved.segment.buffer = transfer.copied segment ∧
      moved.faulted = !printable (transfer.vmalloc 0) (transfer.copied segment) := by
  have within := inRange.2 running
  have fits := within.fits found
  have here : transfer.offset.toNat + copySize segment.bvLen ≤ ramblockSize :=
    (copySize_inside_iff _ _).mpr (by omega)
  obtain ⟨reading, writing⟩ := sound segment rest running found
  rcases within.transfers with reads | writes
  · have all := reading reads
    rw [whole] at all
    simp [moveSegment, Transfer.copied, reads, BioVec.fill, here, ← all]
  · have all := writing writes
    rw [List.take_of_length_le (by rw [segment.sized, whole])] at all
    simp [moveSegment, Transfer.copied, writes, here, all]

theorem Transfer.finish_step {op : ReqOp} {disk : Nat → UInt8} {transfer : Transfer}
    (inRange : transfer.InRange op first last) (sound : transfer.Sound disk) :
    (transferStep (disk, transfer)).2.finish (transferStep (disk, transfer)).1 =
      transfer.finish disk := by
  have inside {segment : BioVec} {rest : List BioVec} (running : transfer.exit = none)
      (found : transfer.rest = segment :: rest) :
      ¬transfer.offset + segment.bvLen > UInt32.ofNat ramblockSize := by
    have fits := (inRange.2 running).fits found
    exact offset_in_range (by omega)
  cases inRange.phase bounded with
  | left gone steps => rw [steps]
  | completes running nothing steps =>
      rw [steps]
      simp only [Transfer.finish, Transfer.leave, Transfer.data, running, nothing, processSegments]
  | reads segment rest running found reads more steps =>
      rw [steps]
      simp only [Transfer.finish, Transfer.took, running]
  | writes segment rest byte running found writes here steps =>
      rw [steps]
      simp only [Transfer.finish, Transfer.took, Transfer.address, running, found, writes]
      rw [processSegments_redone rest disk (inside running found) here]
  | prints segment rest running found whole logged steps =>
      obtain ⟨same, buffer, alive⟩ := sound.moved inRange running found whole bounded
      rw [logged, Bool.not_true] at alive
      rw [steps]
      simp only [Transfer.finish, Transfer.next, running, found, processSegments,
        if_neg (inside running found), alive, Bool.false_eq_true, if_false, same]
      rw [concat, concat, List.flatMap_cons, buffer, List.append_assoc]
  | faults segment rest running found whole unlogged steps =>
      obtain ⟨same, buffer, faulted⟩ := sound.moved inRange running found whole bounded
      rw [unlogged, Bool.not_false] at faulted
      rw [steps]
      simp only [Transfer.finish, Transfer.leave, Transfer.data, Transfer.next, running, found,
        processSegments, if_neg (inside running found), faulted, if_true, same]
      rw [concat, concat, List.flatMap_cons, buffer, List.append_assoc]

omit bounded in
theorem Transfer.InRange.left_pos {op : ReqOp} {transfer : Transfer}
    (inRange : transfer.InRange op first last) (running : transfer.exit = none) : 0 < transfer.left := by
  have within := inRange.2 running
  simp only [Transfer.left, running]
  cases found : transfer.rest with
  | nil => simp [within.started found]
  | cons segment rest =>
      have short := within.short segment rest found
      rw [List.map_cons, List.sum_cons]
      omega

theorem Transfer.left_step {op : ReqOp} {disk : Nat → UInt8} {transfer : Transfer}
    (inRange : transfer.InRange op first last) :
    (transferStep (disk, transfer)).2.left ≤ transfer.left - 1 := by
  cases inRange.phase bounded with
  | left gone steps =>
      rw [steps]
      cases exit : transfer.exit with
      | none => exact absurd exit gone
      | some left => simp [Transfer.left, exit]
  | completes running nothing steps =>
      rw [steps]
      exact Nat.zero_le _
  | reads segment rest running found reads more steps =>
      rw [steps]
      simp only [Transfer.left, Transfer.took, running, found, List.map_cons, List.sum_cons,
        List.length_append, List.length_singleton]
      omega
  | writes segment rest byte running found writes here steps =>
      rw [steps]
      simp only [Transfer.left, Transfer.took, running, found, List.map_cons, List.sum_cons,
        List.length_append, List.length_singleton]
      omega
  | prints segment rest running found whole logged steps =>
      rw [steps]
      simp only [Transfer.left, Transfer.next, running, found, List.map_cons, List.sum_cons, whole,
        List.length_nil]
      omega
  | faults segment rest running found whole unlogged steps =>
      rw [steps]
      exact Nat.zero_le _

end

def Request.range (request : Request) : Nat × Nat :=
  if request.fits then (request.start, request.start + request.sectors.toNat * sectorSize) else (0, 0)

def Request.bytes (request : Request) : Set Nat :=
  {address | request.range.1 ≤ address ∧ address < request.range.2}

def Request.written (request : Request) : Set Nat :=
  {address | request.op = .write ∧ request.range.1 ≤ address ∧ address < request.range.2}

/-- Neither request writes a byte of the other one's range. -/
def Request.Independent (first second : Request) : Prop :=
  (∀ address ∈ first.written, address ∉ second.bytes) ∧ ∀ address ∈ second.written, address ∉ first.bytes

theorem Request.Independent.symm {first second : Request} (independent : first.Independent second) :
    second.Independent first := ⟨independent.2, independent.1⟩

theorem Request.range_bounded (request : Request) : request.range.2 ≤ ramblockSize := by
  unfold Request.range
  split
  · rename_i fits
    exact Request.range_fits fits
  · exact Nat.zero_le _

def Request.steps (request : Request) : Nat :=
  (request.segments.map fun segment => segment.bvLen.toNat + 1).sum + 1

theorem Request.written_subset (request : Request) : request.written ⊆ request.bytes :=
  fun _ written => written.2

theorem Transfer.left_start_le (vmalloc : Vmalloc) (request : Request) :
    (Transfer.start vmalloc request).left ≤ request.steps := by
  unfold Transfer.left Request.steps
  split
  · exact Nat.zero_le _
  · exact Nat.sub_le _ _

theorem Transfer.inRange_start (vmalloc : Vmalloc) {request : Request}
    (guaranteed : request.Guaranteed) :
    (Transfer.start vmalloc request).InRange request.op request.range.1 request.range.2 := by
  refine ⟨rfl, fun running => ?_⟩
  have check := Request.check_iff guaranteed.noOverflow
  have fits : request.fits := by
    by_contra beyond
    simp [Transfer.start, check, beyond] at running
  have offset := Request.offset_toNat fits
  have range : request.range = (request.start, request.start + request.sectors.toNat * sectorSize) :=
    if_pos fits
  rw [range]
  refine ⟨guaranteed.transfers, offset.ge, ?_, fun _ _ _ => Nat.zero_le _, fun _ => rfl⟩
  simp only [Transfer.start, offset, guaranteed.total]
  exact Nat.le_refl _

theorem transfer_alone (vmalloc : Vmalloc) {request : Request} (guaranteed : request.Guaranteed)
    (disk : Nat → UInt8) (steps : Nat) :
    let after := transferStep^[steps] (disk, Transfer.start vmalloc request)
    after.2.InRange request.op request.range.1 request.range.2 ∧ after.2.Sound after.1 ∧
      after.2.finish after.1 = (ramblockProcessRequest vmalloc disk request).ending ∧
      after.2.left ≤ request.steps - steps := by
  have bounded := request.range_bounded
  induction steps with
  | zero =>
      refine ⟨Transfer.inRange_start vmalloc guaranteed, fun segment rest _ _ => ?_,
        Transfer.finish_start vmalloc disk request, Transfer.left_start_le vmalloc request⟩
      exact ⟨fun _ => rfl, fun _ => blit_nil disk _⟩
  | succ steps ih =>
      rw [Function.iterate_succ_apply']
      obtain ⟨inRange, sound, ending, left⟩ := ih
      refine ⟨inRange.step bounded _, sound.step bounded inRange, ?_, ?_⟩
      · exact (Transfer.finish_step bounded inRange sound).trans ending
      · have fewer : (transferStep (transferStep^[steps] (disk, Transfer.start vmalloc request))).2.left ≤
            (transferStep^[steps] (disk, Transfer.start vmalloc request)).2.left - 1 :=
          Transfer.left_step bounded inRange
        omega

theorem transfer_ends (vmalloc : Vmalloc) {request : Request} (guaranteed : request.Guaranteed)
    (disk : Nat → UInt8) {steps : Nat} (enough : request.steps ≤ steps) :
    let after := transferStep^[steps] (disk, Transfer.start vmalloc request)
    let result := ramblockProcessRequest vmalloc disk request
    after.2.exit = some result.exit ∧ after.1 = result.disk ∧ after.2.data = concat result.segments := by
  obtain ⟨inRange, -, ending, left⟩ := transfer_alone vmalloc guaranteed disk steps
  generalize transferStep^[steps] (disk, Transfer.start vmalloc request) = after at inRange ending left
  obtain ⟨now, transfer⟩ := after
  have gone : transfer.exit ≠ none := by
    intro running
    have pending : 0 < transfer.left := inRange.left_pos running
    simp only at left
    omega
  obtain ⟨exit, left⟩ := Option.ne_none_iff_exists'.mp gone
  simp only [Transfer.finish, left, Result.ending, Ending.mk.injEq] at ending
  exact ⟨left.trans (congrArg some ending.1), ending.2.1, ending.2.2⟩

def serveTogether (vmalloc : Nat → Vmalloc) (disk : Nat → UInt8) (requests : List Request)
    (schedule : List (Fin requests.length)) :
    State (Fin requests.length) Nat UInt8 Transfer :=
  runAll transferStep ⟨disk, fun number => Transfer.start (vmalloc number) requests[number]⟩ schedule

def serveInOrder (vmalloc : Nat → Vmalloc) (disk : Nat → UInt8) (requests : List Request)
    (order : List (Fin requests.length)) : Nat → UInt8 :=
  order.foldl (fun disk (number : Fin _) =>
    (ramblockProcessRequest (vmalloc number) disk requests[number]).disk) disk

/-- Requests in flight together, byte by byte in any order, when none writes what another one reads
or writes: given its own steps each ends as it would have ended alone, with the same data, and the
disk is the one that serving them one after the other, in any order, leaves.  A request whose log line
faults alone faults here, and takes nothing of the others with it. -/
theorem ramblock_parallel_requests (vmalloc : Nat → Vmalloc) (disk : Nat → UInt8)
    (requests : List Request) (guaranteed : ∀ request ∈ requests, request.Guaranteed)
    (independent : requests.Pairwise Request.Independent) (schedule : List (Fin requests.length))
    (enough : ∀ number, requests[number].steps ≤ schedule.count number) :
    (∀ number : Fin requests.length,
      ((serveTogether vmalloc disk requests schedule).locals number).exit =
        some (ramblockProcessRequest (vmalloc number) disk requests[number]).exit ∧
      ((serveTogether vmalloc disk requests schedule).locals number).data =
        concat (ramblockProcessRequest (vmalloc number) disk requests[number]).segments) ∧
      ∀ order : List (Fin requests.length), order.Perm (List.finRange requests.length) →
        (serveTogether vmalloc disk requests schedule).memory =
          serveInOrder vmalloc disk requests order := by
  have promised (number : Fin requests.length) : requests[number].Guaranteed :=
    guaranteed _ (List.getElem_mem number.isLt)
  have apart (first second : Fin requests.length) (different : first ≠ second) :
      requests[first].Independent requests[second] := by
    rcases Nat.lt_or_gt_of_ne (Fin.val_ne_of_ne different) with less | more
    · exact List.pairwise_iff_getElem.mp independent first second first.isLt second.isLt less
    · exact (List.pairwise_iff_getElem.mp independent second first second.isLt first.isLt more).symm
  have confined (number : Fin requests.length) : Confined transferStep
      (Transfer.InRange requests[number].op requests[number].range.1 requests[number].range.2)
      requests[number].bytes requests[number].written :=
    confined_transfer requests[number].range_bounded requests[number].op
  have valid (number : Fin requests.length) :=
    Transfer.inRange_start (vmalloc number) (promised number)
  refine ⟨fun number => ?_, fun order perm => ?_⟩
  · obtain ⟨alone, -⟩ := runAll_asAlone
      ⟨disk, fun number : Fin requests.length => Transfer.start (vmalloc number) requests[number]⟩
      confined valid (fun first second different => (apart first second different).1) schedule
    obtain ⟨exit, -, data⟩ := transfer_ends (vmalloc number) (promised number) disk (enough number)
    have same := (alone number).locals
    rw [← serveTogether] at same
    rw [same]
    exact ⟨exit, data⟩
  · rw [serveTogether, runAll_eq_inTurn _ confined valid (fun number => requests[number].written_subset)
      (fun first second different => (apart first second different).1) schedule
      (perm.nodup_iff.mpr (List.nodup_finRange _)) fun number =>
        perm.mem_iff.mpr (List.mem_finRange number)]
    refine List.foldl_ext _ _ _ fun disk number _ => ?_
    exact (transfer_ends (vmalloc number) (promised number) disk (enough number)).2.1

def neighbours : List Request :=
  [⟨3, 1, false, .write, [halfSector 1, halfSector 2]⟩,
    ⟨4, 1, false, .read, [halfSector 0, halfSector 0]⟩]

def byTurns : List (Fin neighbours.length) :=
  (List.replicate 515 [⟨0, by decide⟩, ⟨1, by decide⟩]).flatten

def neighbourBlocks : Nat → Vmalloc
  | 0 => fun _ => some [0]
  | _ => fun _ => some []

theorem ramblock_parallel_requests_neighbours :
    (∀ number : Fin neighbours.length,
      ((serveTogether neighbourBlocks (fun _ => 7) neighbours byTurns).locals number).exit =
        some (ramblockProcessRequest (neighbourBlocks number) (fun _ => 7) neighbours[number]).exit ∧
      ((serveTogether neighbourBlocks (fun _ => 7) neighbours byTurns).locals number).data =
        concat (ramblockProcessRequest (neighbourBlocks number) (fun _ => 7)
          neighbours[number]).segments) ∧
      ∀ order : List (Fin neighbours.length), order.Perm (List.finRange neighbours.length) →
        (serveTogether neighbourBlocks (fun _ => 7) neighbours byTurns).memory =
          serveInOrder neighbourBlocks (fun _ => 7) neighbours order := by
  have writes : Request.range ⟨3, 1, false, .write, [halfSector 1, halfSector 2]⟩ = (1536, 2048) := by
    decide
  have reads : Request.range ⟨4, 1, false, .read, [halfSector 0, halfSector 0]⟩ = (2048, 2560) := by
    decide
  have turns (number : Fin neighbours.length) : byTurns.count number = 515 := by
    rw [byTurns, List.count_flatten, List.map_replicate, List.sum_replicate_nat]
    match number with
    | ⟨0, _⟩ => rfl
    | ⟨1, _⟩ => rfl
  have enough (number : Fin neighbours.length) : neighbours[number].steps ≤ byTurns.count number := by
    rw [turns]
    match number with
    | ⟨0, _⟩ => exact Nat.le_refl 515
    | ⟨1, _⟩ => exact Nat.le_refl 515
  have promised : ∀ request ∈ neighbours, request.Guaranteed := by
    intro request member
    simp only [neighbours, List.mem_cons, List.not_mem_nil, or_false] at member
    rcases member with rfl | rfl <;>
      exact ⟨rfl, by decide, by decide, by decide, by decide⟩
  have apart : neighbours.Pairwise Request.Independent := by
    refine List.pairwise_pair.mpr ⟨?_, ?_⟩
    · intro address written read
      have before := written.2.2
      have after := read.1
      rw [writes] at before
      rw [reads] at after
      omega
    · intro address written _
      exact absurd written.1 (by decide)
  exact ramblock_parallel_requests neighbourBlocks (fun _ => 7) neighbours promised apart byTurns enough

end LearnK.RamBlock
