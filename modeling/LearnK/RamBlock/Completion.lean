import LearnK.RamBlock.Segments

/-! How often a request is completed.  `ramblock_process_request` ends every request itself and
returns its status, and the blk-mq core ends a request that comes back with an error. -/

namespace LearnK.RamBlock

open ByteMemory

inductive QueueRqStatus
  | ok
  | resource
  | devResource
  | error
  deriving DecidableEq, Repr

def BlkStatus.queueRq : BlkStatus → QueueRqStatus
  | .ok => .ok
  | .ioerr => .error

def QueueRqStatus.coreEnds : QueueRqStatus → Nat
  | .ok | .resource | .devResource => 0
  | .error => 1

/-- Every exit but a fault passes `end_request`. -/
def Exit.driverEnds : Exit → Nat
  | .outOfCapacity | .passthrough | .segmentOutOfRange | .completed => 1
  | .oops => 0

def Exit.completions (exit : Exit) : Nat :=
  exit.driverEnds + (exit.status.map fun status => status.queueRq.coreEnds).getD 0

theorem Exit.completions_eq_one_iff (exit : Exit) : exit.completions = 1 ↔ exit = .completed := by
  cases exit <;> decide

def Request.after (request : Request) (disk : Nat → UInt8) : Nat → UInt8 :=
  if request.op = .write then blit disk request.offset.toNat (concat request.segments) else disk

def AllClean : (Nat → Vmalloc) → (Nat → UInt8) → List Request → Prop
  | _, _, [] => True
  | vmalloc, disk, request :: rest =>
      request.Clean (vmalloc 0) disk ∧
        AllClean (fun number => vmalloc (number + 1)) (request.after disk) rest

theorem processRequest_after {vmalloc : Vmalloc} {disk : Nat → UInt8} {request : Request}
    (completed : (ramblockProcessRequest vmalloc disk request).exit = .completed) :
    (ramblockProcessRequest vmalloc disk request).disk = request.after disk := by
  have loop := processRequest_completed completed
  rw [loop] at completed
  rw [loop]
  unfold Request.after
  cases op : request.op with
  | read =>
      rw [op] at completed
      exact (processSegments_read completed).1
  | write =>
      rw [op] at completed
      exact (processSegments_write completed).2
  | other =>
      rw [op] at completed
      exact processSegments_other completed

/-- In every sequence of requests each is completed exactly once if and only if each meets all checks
and copies and logs without a fault: what the driver refuses, it ends and the core ends again. -/
theorem serve_completes_once_iff (vmalloc : Nat → Vmalloc) (disk : Nat → UInt8)
    (requests : List Request) :
    (∀ served ∈ serve vmalloc disk requests, served.result.exit.completions = 1) ↔
      AllClean vmalloc disk requests := by
  induction requests generalizing vmalloc disk with
  | nil => simp [serve, AllClean]
  | cons request rest ih =>
      have clean := processRequest_completed_iff (vmalloc 0) disk request
      rw [serve, List.forall_mem_cons, AllClean, ih, Exit.completions_eq_one_iff, clean]
      refine and_congr_right fun met => ?_
      rw [processRequest_after (clean.mpr met)]

def passthroughRequest : Request := ⟨0, 0, true, .other, []⟩

theorem ramblockProcessRequest_ends_twice :
    (ramblockProcessRequest (fun _ => some []) (fun _ => 0) passthroughRequest).exit.driverEnds = 1 ∧
      (ramblockProcessRequest (fun _ => some []) (fun _ => 0) passthroughRequest).exit.completions = 2 :=
  ⟨rfl, rfl⟩

end LearnK.RamBlock
