import LearnK.Container.Bytes
import LearnK.Container.Programs

/-! Which stores of the containers and of `string_new_cap` stay inside the block that was
requested for the struct they are made through. -/

namespace LearnK.Container

open ByteMemory CString FaultM StepMachine

def ByteStore.Covers (store : ByteStore) (addr : Nat) : Prop :=
  store.start ≤ addr ∧ addr < store.start + store.width

def ByteStore.Inside (store : ByteStore) : Prop :=
  ∃ block, store.block = some block ∧ block.base ≤ store.start ∧
    store.start + store.width ≤ block.base + block.size

def ByteStore.Apart (store : ByteStore) : Prop :=
  ∀ other ∈ store.others, ∀ field ∈ other.layout.fields,
    store.start + store.width ≤ other.addr + field.1 ∨
      other.addr + field.1 + field.2 ≤ store.start

def Confined (world : World) : Prop :=
  ∀ store ∈ world.heap.log, store.Inside ∧ store.Apart

def Logged (before after : ByteHeap) : Prop :=
  ∃ stores, after.log = stores ++ before.log ∧
    ∀ addr, (∀ store ∈ stores, ¬store.Covers addr) → after.mem addr = before.mem addr

theorem Logged.refl (heap : ByteHeap) : Logged heap heap := ⟨[], rfl, fun _ _ => rfl⟩

theorem Logged.trans (first second third : ByteHeap) (early : Logged first second)
    (late : Logged second third) : Logged first third := by
  obtain ⟨earlyStores, earlyLog, earlyFrame⟩ := early
  obtain ⟨lateStores, lateLog, lateFrame⟩ := late
  refine ⟨lateStores ++ earlyStores, ?_, ?_⟩
  · rw [lateLog, earlyLog, List.append_assoc]
  · intro addr untouched
    rw [lateFrame addr fun store member => untouched store (by simp [member]),
      earlyFrame addr fun store member => untouched store (by simp [member])]

theorem Logged.log_subset {before after : ByteHeap} (logged : Logged before after) {store : ByteStore}
    (member : store ∈ before.log) : store ∈ after.log := by
  obtain ⟨stores, log, -⟩ := logged
  rw [log]
  exact List.mem_append_right _ member

theorem load_ok {start width value : Nat} {heap after : ByteHeap}
    (ran : load start width heap = .ok (value, after)) : after = heap := by
  rw [load] at ran
  split at ran
  · exact (Prod.mk.inj (Except.ok.inj ran)).2.symm
  · simp at ran

theorem store_ok {owner start : Nat} {bytes : List UInt8} {block : ByteHeap → Option Block}
    {heap after : ByteHeap} {value : Unit}
    (ran : store owner start bytes block heap = .ok (value, after)) :
    after.mem = blit heap.mem start bytes ∧ after.objects = heap.objects ∧
      after.log = ⟨owner, start, bytes.length, block heap,
        heap.objects.filter fun object => object.addr ≠ owner⟩ :: heap.log := by
  rw [store] at ran
  split at ran
  · obtain ⟨-, rfl⟩ := Prod.mk.inj (Except.ok.inj ran)
    exact ⟨rfl, rfl, rfl⟩
  · simp at ran

theorem load_logged (start width : Nat) : Keeps Logged (load start width) := by
  intro heap value after ran
  rw [load_ok ran]
  exact Logged.refl heap

theorem loadPointer_logged (start : Nat) : Keeps Logged (loadPointer start) :=
  Keeps.bind Logged.trans (load_logged _ _) fun _ => Keeps.pure Logged.refl _

theorem store_logged (owner start : Nat) (bytes : List UInt8) (block : ByteHeap → Option Block) :
    Keeps Logged (store owner start bytes block) := by
  intro heap value after ran
  obtain ⟨mem, -, log⟩ := store_ok ran
  refine ⟨[_], log, ?_⟩
  intro addr untouched
  have outside := untouched _ (List.mem_singleton_self _)
  rw [ByteStore.Covers, not_and_or] at outside
  rw [mem]
  rcases outside with below | above
  · exact blit_below _ _ (by simpa using below)
  · exact blit_above _ _ (by simpa using above)

theorem allocate_ok {addr size : Nat} {heap after : ByteHeap} {value : Unit}
    (ran : allocate addr size heap = .ok (value, after)) :
    after.mem = heap.mem ∧ after.objects = heap.objects ∧ after.log = heap.log := by
  rw [allocate] at ran
  split at ran
  · obtain ⟨-, rfl⟩ := Prod.mk.inj (Except.ok.inj ran)
    exact ⟨rfl, rfl, rfl⟩
  · simp at ran

theorem allocateStruct_ok {layout : Layout} {addr size : Nat} {heap after : ByteHeap} {value : Unit}
    (ran : allocateStruct layout addr size heap = .ok (value, after)) :
    after.mem = heap.mem ∧ after.objects = ⟨addr, layout, size⟩ :: heap.objects ∧
      after.log = heap.log := by
  rw [allocateStruct] at ran
  cases made : allocate addr size heap with
  | error fault =>
      rw [made] at ran
      simp [Except.map] at ran
  | ok result =>
      rw [made] at ran
      obtain ⟨mem, objects, log⟩ := allocate_ok made
      obtain ⟨-, rfl⟩ := Prod.mk.inj (Except.ok.inj ran)
      exact ⟨mem, by rw [objects], log⟩

theorem release_ok {addr : Nat} {heap after : ByteHeap} {value : Unit}
    (ran : release addr heap = .ok (value, after)) : after.mem = heap.mem ∧ after.log = heap.log := by
  rw [release] at ran
  split at ran
  · obtain ⟨-, rfl⟩ := Prod.mk.inj (Except.ok.inj ran)
    exact ⟨rfl, rfl⟩
  · simp at ran

theorem logged_of_same {before after : ByteHeap} (mem : after.mem = before.mem)
    (log : after.log = before.log) : Logged before after :=
  ⟨[], log, fun addr _ => by rw [mem]⟩

theorem allocate_logged (addr size : Nat) : Keeps Logged (allocate addr size) := by
  intro heap value after ran
  obtain ⟨mem, -, log⟩ := allocate_ok ran
  exact logged_of_same mem log

theorem allocateStruct_logged (layout : Layout) (addr size : Nat) :
    Keeps Logged (allocateStruct layout addr size) := by
  intro heap value after ran
  obtain ⟨mem, -, log⟩ := allocateStruct_ok ran
  exact logged_of_same mem log

theorem addNode_logged (node : Addr) (value : Word) :
    Keeps Logged (addNode node value : ByteM Unit) := by
  refine Keeps.bind Logged.trans (allocateStruct_logged _ _ _) fun _ => ?_
  refine Keeps.bind Logged.trans ?_ fun _ => store_logged _ _ _ _
  exact Keeps.bind Logged.trans (store_logged _ _ _ _) fun _ => store_logged _ _ _ _

theorem logged_closed :
    Closed (fun _ => True) fun α (action : ByteM α) (_ : ByteM α) => Keeps Logged action where
  pure := Keeps.pure Logged.refl
  bind := Keeps.bind Logged.trans
  readNext _ := loadPointer_logged _
  readPrev _ := loadPointer_logged _
  readWord _ := Keeps.bind Logged.trans (load_logged _ _) fun _ => Keeps.pure Logged.refl _
  writeNext _ _ := store_logged _ _ _ _
  writePrev _ _ := store_logged _ _ _ _
  writeWord _ _ := store_logged _ _ _ _
  addNode _ _ _ := addNode_logged _ _
  kfree _ := by
    intro heap value after ran
    obtain ⟨mem, log⟩ := release_ok ran
    exact logged_of_same mem log
  fault _ := by
    intro heap value after ran
    simp [ListMemory.fault] at ran

theorem stringFill_logged (str : Text) (cap : UInt64) (view buffer : Addr) :
    Keeps Logged (stringFill str cap view buffer) := by
  refine Keeps.bind Logged.trans (store_logged _ _ _ _) fun _ => ?_
  refine Keeps.bind Logged.trans (load_logged _ _) fun _ => ?_
  refine Keeps.bind Logged.trans (allocate_logged _ _) fun _ => ?_
  refine Keeps.bind Logged.trans (store_logged _ _ _ _) fun _ => ?_
  refine Keeps.bind Logged.trans (loadPointer_logged _) fun _ => ?_
  refine Keeps.bind Logged.trans (load_logged _ _) fun _ => ?_
  refine Keeps.bind Logged.trans (store_logged _ _ _ _) fun _ => ?_
  refine Keeps.bind Logged.trans (loadPointer_logged _) fun _ => ?_
  refine Keeps.bind Logged.trans (load_logged _ _) fun _ => ?_
  exact store_logged _ _ _ _

theorem stringNewCap_logged (str : Text) (cap : UInt64) (view buffer : Addr) :
    Keeps Logged (stringNewCap str cap view buffer) := by
  rw [stringNewCap]
  split
  · exact Keeps.pure Logged.refl _
  · refine Keeps.bind Logged.trans (allocateStruct_logged _ _ _) fun _ => ?_
    refine Keeps.bind Logged.trans (store_logged _ _ _ _) fun _ => ?_
    exact stringFill_logged _ _ _ _

def Escapes (heap : ByteHeap) : Prop := ∃ store ∈ heap.log, ¬store.Inside

theorem Escapes.logged {before after : ByteHeap} (escapes : Escapes before)
    (logged : Logged before after) : Escapes after := by
  obtain ⟨store, member, outside⟩ := escapes
  exact ⟨store, logged.log_subset member, outside⟩

theorem storeField_ok {owner offset : Nat} {bytes : List UInt8} {heap after : ByteHeap}
    {value : Unit} (ran : storeField owner offset bytes heap = .ok (value, after)) :
    after.objects = heap.objects ∧ ∃ store ∈ after.log, store.start = owner + offset ∧
      store.width = bytes.length ∧
      store.block = (heap.object owner).map fun object => ⟨owner, object.requested⟩ := by
  obtain ⟨-, objects, log⟩ := store_ok ran
  exact ⟨objects, _, log ▸ List.mem_cons_self, rfl, rfl, rfl⟩

theorem storeField_escapes {layout : Layout} {owner offset : Nat} {bytes : List UInt8}
    {rest : List Object} {heap after : ByteHeap} {value : Unit}
    (owned : heap.objects = ⟨owner, layout, sizeofPointer⟩ :: rest)
    (long : sizeofPointer < offset + bytes.length)
    (ran : storeField owner offset bytes heap = .ok (value, after)) : Escapes after := by
  obtain ⟨-, store, member, start, width, found⟩ := storeField_ok ran
  refine ⟨store, member, ?_⟩
  rintro ⟨block, same, -, fits⟩
  simp only [ByteHeap.object, owned, List.find?_cons, decide_true, Option.map_some] at found
  obtain rfl : ⟨owner, sizeofPointer⟩ = block := Option.some.inj (found.symm.trans same)
  simp only [start, width] at fits
  omega

theorem addNode_escapes {node : Addr} {value : Word} {heap after : ByteHeap} {result : Unit}
    (ran : (addNode node value : ByteM Unit) heap = .ok (result, after)) : Escapes after := by
  obtain ⟨_, made, allocated, ran⟩ := bind_ok ran
  obtain ⟨_, linked, initialised, ran⟩ := bind_ok ran
  obtain ⟨_, half, nextStored, prevStored⟩ := bind_ok initialised
  obtain ⟨-, objects, -⟩ := allocateStruct_ok allocated
  have sameObjects : half.objects = made.objects := (storeField_ok nextStored).1
  have escapes : Escapes linked := by
    refine storeField_escapes (sameObjects.trans objects) ?_ prevStored
    simp [littleEndian, sizeofPointer]
  exact escapes.logged (logged_closed.writeWord node value linked result after ran)

theorem stringNewCap_escapes {str : Text} {cap : UInt64} {view buffer : Addr}
    {heap after : ByteHeap} {result : Unit} (fits : ¬lenExceeds str cap)
    (ran : stringNewCap str cap view buffer heap = .ok (result, after)) : Escapes after := by
  rw [stringNewCap, if_neg fits] at ran
  obtain ⟨_, made, allocated, ran⟩ := bind_ok ran
  obtain ⟨_, lenStored, stored, filled⟩ := bind_ok ran
  obtain ⟨-, objects, -⟩ := allocateStruct_ok allocated
  have escapes : Escapes lenStored := by
    refine storeField_escapes objects ?_ stored
    simp [littleEndian, sizeofPointer]
  exact escapes.logged (stringFill_logged _ _ _ _ _ _ _ filled)

theorem World.call_some {α : Type} {world next : World} {action : ByteM α} {store : α → Word}
    (called : world.call action store = some next) :
    ∃ value, action world.heap = .ok (value, next.heap) ∧ next.containers = world.containers := by
  rw [World.call] at called
  split at called
  · rename_i value heap ran
    obtain rfl := Option.some.inj called
    exact ⟨value, ran, rfl⟩
  · simp at called

theorem World.callOn_some {α : Type} {world next : World} {kind : Kind} {container : Addr}
    {action : ByteM α} {store : α → Word}
    (called : world.callOn kind container action store = some next) :
    world.containers ≠ [] ∧ world.call action store = some next := by
  rw [World.callOn] at called
  split at called
  · rename_i member
    exact ⟨List.ne_nil_of_mem member, called⟩
  · simp at called

/-- The calls that construct nothing: `string_new_cap` on a text longer than the capacity. -/
def Refused : WorldOp → Prop
  | .stringNewCap str cap _ _ => lenExceeds str cap
  | _ => False

theorem worldStep_logged {world next : World} {op : WorldOp}
    (stepped : worldStep world op = some next) : Logged world.heap next.heap := by
  cases op with
  | add kind container =>
      obtain ⟨made, called, rfl⟩ := Option.map_eq_some_iff.mp stepped
      obtain ⟨_, ran, -⟩ := World.call_some called
      exact logged_closed.add kind container trivial _ _ _ ran
  | push kind container node value =>
      obtain ⟨_, ran, -⟩ := World.call_some (World.callOn_some stepped).2
      exact logged_closed.push kind container node value trivial _ _ _ ran
  | pop kind container =>
      obtain ⟨_, ran, -⟩ := World.call_some (World.callOn_some stepped).2
      exact logged_closed.pop kind container _ _ _ _ ran
  | insert l index node value =>
      obtain ⟨_, ran, -⟩ := World.call_some (World.callOn_some stepped).2
      exact logged_closed.linkListInsert l index node value trivial _ _ _ ran
  | remove l index =>
      obtain ⟨_, ran, -⟩ := World.call_some (World.callOn_some stepped).2
      exact logged_closed.linkListRemove l index _ _ _ ran
  | get l index =>
      obtain ⟨_, ran, -⟩ := World.call_some (World.callOn_some stepped).2
      exact logged_closed.linkListGet l index _ _ _ _ ran
  | stringNewCap str cap view buffer =>
      rw [worldStep] at stepped
      obtain ⟨_, ran, -⟩ := World.call_some stepped
      exact stringNewCap_logged str cap view buffer _ _ _ ran

def Scarred (world : World) : Prop := world.containers ≠ [] → Escapes world.heap

theorem worldStep_escapes {world next : World} {op : WorldOp} (scarred : Scarred world)
    (constructs : ¬Refused op) (stepped : worldStep world op = some next) : Escapes next.heap := by
  have logged := worldStep_logged stepped
  cases op with
  | add kind container =>
      obtain ⟨made, called, rfl⟩ := Option.map_eq_some_iff.mp stepped
      obtain ⟨_, ran, -⟩ := World.call_some called
      cases kind <;> exact addNode_escapes ran
  | push kind container node value =>
      exact (scarred (World.callOn_some stepped).1).logged logged
  | pop kind container => exact (scarred (World.callOn_some stepped).1).logged logged
  | insert l index node value => exact (scarred (World.callOn_some stepped).1).logged logged
  | remove l index => exact (scarred (World.callOn_some stepped).1).logged logged
  | get l index => exact (scarred (World.callOn_some stepped).1).logged logged
  | stringNewCap str cap view buffer =>
      rw [worldStep] at stepped
      obtain ⟨_, ran, -⟩ := World.call_some stepped
      exact stringNewCap_escapes constructs ran

theorem worldStep_refused {world next : World} {op : WorldOp} (refused : Refused op)
    (stepped : worldStep world op = some next) :
    next.heap = world.heap ∧ next.containers = world.containers := by
  cases op with
  | stringNewCap str cap view buffer =>
      rw [worldStep] at stepped
      obtain ⟨_, ran, containers⟩ := World.call_some stepped
      have exceeds : lenExceeds str cap := refused
      rw [stringNewCap, if_pos exceeds] at ran
      obtain ⟨-, same⟩ := Prod.mk.inj (Except.ok.inj ran)
      exact ⟨same.symm, containers⟩
  | _ => exact refused.elim

theorem run_logged {world final : World} {ops : List WorldOp}
    (ran : run worldStep world ops = some final) : Logged world.heap final.heap := by
  induction ops generalizing world with
  | nil =>
      obtain rfl := Option.some.inj ran
      exact Logged.refl _
  | cons op rest ih =>
      obtain ⟨next, stepped, remaining⟩ := run_cons_some ran
      exact Logged.trans _ _ _ (worldStep_logged stepped) (ih remaining)

theorem run_escapes {world final : World} {ops : List WorldOp} (scarred : Scarred world)
    (constructs : ∃ op ∈ ops, ¬Refused op) (ran : run worldStep world ops = some final) :
    Escapes final.heap := by
  induction ops generalizing world with
  | nil => simp at constructs
  | cons op rest ih =>
      obtain ⟨next, stepped, remaining⟩ := run_cons_some ran
      by_cases refused : Refused op
      · obtain ⟨heap, containers⟩ := worldStep_refused refused stepped
        have still : Scarred next := by
          rw [Scarred, heap, containers]
          exact scarred
        refine ih still ?_ remaining
        obtain ⟨other, member, makes⟩ := constructs
        rcases List.mem_cons.mp member with rfl | later
        · exact absurd refused makes
        · exact ⟨other, later, makes⟩
      · exact (worldStep_escapes scarred refused stepped).logged (run_logged remaining)

theorem run_refused {world final : World} {ops : List WorldOp}
    (refused : ∀ op ∈ ops, Refused op) (ran : run worldStep world ops = some final) :
    final.heap = world.heap := by
  induction ops generalizing world with
  | nil =>
      obtain rfl := Option.some.inj ran
      rfl
  | cons op rest ih =>
      obtain ⟨next, stepped, remaining⟩ := run_cons_some ran
      have later : final.heap = next.heap :=
        ih (fun other member => refused other (by simp [member])) remaining
      exact later.trans (worldStep_refused (refused op (by simp)) stepped).1

/-- From a memory without containers or strings, under every placement of the blocks, the
stores stay in the blocks requested for their structs exactly when nothing is constructed. -/
theorem world_confined_iff (start final : World) (ops : List WorldOp)
    (noContainers : start.containers = []) (noStores : start.heap.log = [])
    (ran : run worldStep start ops = some final) :
    Confined final ↔ ∀ op ∈ ops, Refused op := by
  constructor
  · intro confined
    by_contra constructs
    push Not at constructs
    have scarred : Scarred start := fun some => absurd noContainers some
    obtain ⟨store, member, outside⟩ := run_escapes scarred constructs ran
    exact outside (confined store member).1
  · intro refused store member
    rw [run_refused refused ran, noStores] at member
    simp at member

def emptyWorld : World := ⟨⟨fun _ => 0, fun _ => true, [], [], []⟩, [], 0⟩

theorem world_confined_iff_oneQueue : ∃ final, run worldStep emptyWorld [.add .queue 4096] = some final ∧
    (Confined final ↔ ∀ op ∈ [WorldOp.add .queue 4096], Refused op) := by
  obtain ⟨final, ran⟩ := Option.isSome_iff_exists.mp (by decide :
    (run worldStep emptyWorld [.add .queue 4096]).isSome = true)
  exact ⟨final, ran, world_confined_iff emptyWorld final _ rfl rfl ran⟩

/-- Two containers in neighbouring blocks of eight bytes: making the stack changes the `prev`
link of the queue. -/
theorem addStack_overwrites_queue :
    ∃ before after, run worldStep emptyWorld [.add .queue 4096] = some before ∧
      run worldStep emptyWorld [.add .queue 4096, .add .stack 4104] = some after ∧
      before.heap.objects = [⟨4096, .listStruct, 8⟩] ∧
      ofLittleEndian (slice before.heap.mem (4096 + 8) 8) = 4096 ∧
      ofLittleEndian (slice after.heap.mem (4096 + 8) 8) = 4104 ∧ ¬Confined after := by
  obtain ⟨before, ranBefore, fieldsBefore⟩ := Option.map_eq_some_iff.mp (by decide +kernel :
    (run worldStep emptyWorld [.add .queue 4096]).map (fun world => (world.heap.objects,
      ofLittleEndian (slice world.heap.mem (4096 + 8) 8))) =
      some ([⟨4096, .listStruct, 8⟩], 4096))
  obtain ⟨after, ranAfter, prevAfter⟩ := Option.map_eq_some_iff.mp (by decide +kernel :
    (run worldStep emptyWorld [.add .queue 4096, .add .stack 4104]).map (fun world =>
      ofLittleEndian (slice world.heap.mem (4096 + 8) 8)) = some 4104)
  obtain ⟨objects, prevBefore⟩ := Prod.mk.inj fieldsBefore
  refine ⟨before, after, ranBefore, ranAfter, objects, prevBefore, prevAfter, ?_⟩
  intro confined
  have scarred : Scarred emptyWorld := fun some => absurd rfl some
  obtain ⟨store, member, outside⟩ :=
    run_escapes scarred ⟨.add .queue 4096, by simp, id⟩ ranAfter
  exact outside (confined store member).1

end LearnK.Container
