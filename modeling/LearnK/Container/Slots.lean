import LearnK.Container.Bytes
import LearnK.Container.LinkList
import LearnK.Container.Programs

/-!
Byte memory in which the allocator leaves every struct its whole 24 bytes.  There the short
requests do no harm: the bytes mirror a heap of whole structs, and each container function
does to them what it does to that heap.
-/

namespace LearnK.Container

open ByteMemory FaultM StepMachine Function ListMemory

def sizeofStruct : Nat := 24

structure Slots where
  Slot : Addr → Prop
  apart : ∀ first second, Slot first → Slot second → first ≠ second →
    first.toNat + sizeofStruct ≤ second.toNat ∨ second.toNat + sizeofStruct ≤ first.toNat
  fits : ∀ addr, Slot addr → addr.toNat + sizeofStruct ≤ 18446744073709551616
  sane : ∀ addr, Slot addr → addr ≠ 0 ∧ addr ≠ listPoison1 ∧ addr ≠ listPoison2

structure Fields where
  next : Addr
  prev : Addr
  word : Word

def Heap.fields (cells : Heap) (addr : Addr) : Fields :=
  ⟨cells.next addr, cells.prev addr, cells.word addr⟩

structure Image (mem : Nat → UInt8) (addr : Addr) (fields : Fields) : Prop where
  next : slice mem addr.toNat 8 = littleEndian 8 fields.next.toNat
  prev : slice mem (addr.toNat + 8) 8 = littleEndian 8 fields.prev.toNat
  word : slice mem (addr.toNat + 16) 4 = littleEndian 4 fields.word.toNat

structure Mirrors (slots : Slots) (cells : Heap) (bytes : ByteHeap) : Prop where
  slotted : ∀ addr, cells.live addr = true → slots.Slot addr
  image : ∀ addr, cells.live addr = true → Image bytes.mem addr (cells.fields addr)
  mapped : ∀ addr, slots.Slot addr → bytes.Mapped addr.toNat sizeofStruct
  object : ∀ addr, cells.live addr = true →
    bytes.object addr.toNat = some ⟨addr.toNat, .listStruct, sizeofPointer⟩
  owned : ∀ addr, cells.live addr = true → ⟨addr.toNat, sizeofPointer⟩ ∈ bytes.blocks
  /-- What is allocated in a slot is the struct there. -/
  blocks : ∀ block ∈ bytes.blocks,
    (∃ addr, cells.live addr = true ∧ block = ⟨addr.toNat, sizeofPointer⟩) ∨
      ∀ addr, slots.Slot addr →
        addr.toNat + sizeofStruct ≤ block.base ∨ block.base + block.size ≤ addr.toNat
  nodup : bytes.blocks.Nodup

section Image

variable {mem : Nat → UInt8} {addr : Addr} {fields : Fields}

theorem Image.blit_apart (image : Image mem addr fields) {start : Nat} {bytes : List UInt8}
    (apart : addr.toNat + sizeofStruct ≤ start ∨ start + bytes.length ≤ addr.toNat) :
    Image (blit mem start bytes) addr fields := by
  unfold sizeofStruct at apart
  constructor
  · rw [slice_blit_apart _ _ (by omega), image.next]
  · rw [slice_blit_apart _ _ (by omega), image.prev]
  · rw [slice_blit_apart _ _ (by omega), image.word]

theorem slice_blit_littleEndian (mem : Nat → UInt8) (start width value : Nat) :
    slice (blit mem start (littleEndian width value)) start width = littleEndian width value := by
  have same := slice_blit_same mem start (littleEndian width value)
  rwa [littleEndian_length] at same

theorem slice_blit_field (mem : Nat → UInt8) {start other length width : Nat} (value : Nat)
    (apart : other + length ≤ start ∨ start + width ≤ other) :
    slice (blit mem start (littleEndian width value)) other length = slice mem other length :=
  slice_blit_apart _ _ (by rwa [littleEndian_length])

theorem Image.blit_next (image : Image mem addr fields) (value : Addr) :
    Image (blit mem (addr.toNat + 0) (littleEndian 8 value.toNat)) addr
      { fields with next := value } := by
  constructor
  · exact slice_blit_littleEndian _ _ _ _
  · rw [slice_blit_field _ _ (by omega), image.prev]
  · rw [slice_blit_field _ _ (by omega), image.word]

theorem Image.blit_prev (image : Image mem addr fields) (value : Addr) :
    Image (blit mem (addr.toNat + 8) (littleEndian 8 value.toNat)) addr
      { fields with prev := value } := by
  constructor
  · rw [slice_blit_field _ _ (by omega), image.next]
  · exact slice_blit_littleEndian _ _ _ _
  · rw [slice_blit_field _ _ (by omega), image.word]

theorem Image.blit_word (image : Image mem addr fields) (value : Word) :
    Image (blit mem (addr.toNat + 16) (littleEndian 4 value.toNat)) addr
      { fields with word := value } := by
  constructor
  · rw [slice_blit_field _ _ (by omega), image.next]
  · rw [slice_blit_field _ _ (by omega), image.prev]
  · exact slice_blit_littleEndian _ _ _ _

end Image

/-- The two memories differ in their bytes and in what is logged, not in what is allocated. -/
structure SamePlaces (before after : ByteHeap) : Prop where
  mapped : after.mapped = before.mapped
  blocks : after.blocks = before.blocks
  objects : after.objects = before.objects

theorem SamePlaces.trans {first second third : ByteHeap} (early : SamePlaces first second)
    (late : SamePlaces second third) : SamePlaces first third :=
  ⟨late.mapped.trans early.mapped, late.blocks.trans early.blocks, late.objects.trans early.objects⟩

theorem SamePlaces.mappedAt {before after : ByteHeap} (same : SamePlaces before after)
    {start width : Nat} (mapped : before.Mapped start width) : after.Mapped start width := by
  rw [ByteHeap.Mapped, same.mapped]
  exact mapped

theorem storeField_run {owner offset : Nat} {data : List UInt8} {bytes : ByteHeap}
    (mapped : bytes.Mapped (owner + offset) data.length) :
    ∃ after, storeField owner offset data bytes = .ok ((), after) ∧
      after.mem = blit bytes.mem (owner + offset) data ∧ SamePlaces bytes after := by
  refine ⟨_, if_pos mapped, rfl, ?_⟩
  exact ⟨rfl, rfl, rfl⟩

theorem load_run {start width value : Nat} {bytes : ByteHeap} (mapped : bytes.Mapped start width)
    (held : slice bytes.mem start width = littleEndian width value) (bound : value < 256 ^ width) :
    load start width bytes = .ok (value, bytes) := by
  rw [load, if_pos mapped, held, ofLittleEndian_littleEndian bound]

theorem loadPointer_run {start : Nat} {value : Addr} {bytes : ByteHeap}
    (mapped : bytes.Mapped start 8)
    (held : slice bytes.mem start 8 = littleEndian 8 value.toNat) :
    loadPointer start bytes = .ok (value, bytes) := by
  have loaded := load_run mapped held value.toNat_lt
  rw [loadPointer, bind_apply, loaded]
  simp [pure_apply]

theorem loadWord_run {start : Nat} {value : Word} {bytes : ByteHeap}
    (mapped : bytes.Mapped start 4)
    (held : slice bytes.mem start 4 = littleEndian 4 value.toNat) :
    loadWord start bytes = .ok (value, bytes) := by
  have loaded := load_run mapped held value.isLt
  rw [loadWord, bind_apply, loaded]
  simp [pure_apply]

theorem ByteHeap.Mapped.within {bytes : ByteHeap} {start width : Nat}
    (mapped : bytes.Mapped start width) {offset length : Nat} (inside : offset + length ≤ width) :
    bytes.Mapped (start + offset) length := by
  intro index bound
  rw [Nat.add_assoc]
  exact mapped _ (by omega)

section Mirrors

variable {slots : Slots} {cells : Heap} {bytes : ByteHeap} {addr : Addr}

theorem Mirrors.mapped_field (mirrors : Mirrors slots cells bytes) (live : cells.live addr = true)
    {offset length : Nat} (inside : offset + length ≤ sizeofStruct) :
    bytes.Mapped (addr.toNat + offset) length :=
  (mirrors.mapped addr (mirrors.slotted addr live)).within inside

theorem Mirrors.storeField {changed : Heap} {offset : Nat} {data : List UInt8}
    (mirrors : Mirrors slots cells bytes) (live : cells.live addr = true)
    (inside : offset + data.length ≤ sizeofStruct) (sameLive : changed.live = cells.live)
    (own : Image (blit bytes.mem (addr.toNat + offset) data) addr (changed.fields addr))
    (others : ∀ other, other ≠ addr → changed.fields other = cells.fields other) :
    ∃ after, storeField addr.toNat offset data bytes = .ok ((), after) ∧
      Mirrors slots changed after := by
  obtain ⟨after, ran, mem, places⟩ := storeField_run (mirrors.mapped_field live inside)
  refine ⟨after, ran, ?_⟩
  constructor
  · rw [sameLive]
    exact mirrors.slotted
  · intro other otherLive
    rw [sameLive] at otherLive
    rw [mem]
    by_cases same : other = addr
    · rw [same]
      exact own
    · rw [others other same]
      apply (mirrors.image other otherLive).blit_apart
      have apart := slots.apart other addr (mirrors.slotted other otherLive)
        (mirrors.slotted addr live) same
      omega
  · intro other slot
    exact places.mappedAt (mirrors.mapped other slot)
  · intro other otherLive
    rw [ByteHeap.object, places.objects]
    exact mirrors.object other (sameLive ▸ otherLive)
  · rw [sameLive, places.blocks]
    exact mirrors.owned
  · rw [sameLive, places.blocks]
    exact mirrors.blocks
  · rw [places.blocks]
    exact mirrors.nodup

theorem Mirrors.readNext (mirrors : Mirrors slots cells bytes) (live : cells.live addr = true) :
    (readNext addr : ByteM Addr) bytes = .ok (cells.next addr, bytes) := by
  have mapped : bytes.Mapped (addr.toNat + 0) 8 := mirrors.mapped_field live (by decide)
  exact loadPointer_run mapped (mirrors.image addr live).next

theorem Mirrors.readPrev (mirrors : Mirrors slots cells bytes) (live : cells.live addr = true) :
    (readPrev addr : ByteM Addr) bytes = .ok (cells.prev addr, bytes) :=
  loadPointer_run (mirrors.mapped_field live (by decide)) (mirrors.image addr live).prev

theorem Mirrors.readWord (mirrors : Mirrors slots cells bytes) (live : cells.live addr = true) :
    (readWord addr : ByteM Word) bytes = .ok (cells.word addr, bytes) :=
  loadWord_run (mirrors.mapped_field live (by decide)) (mirrors.image addr live).word

theorem Mirrors.writeNext (mirrors : Mirrors slots cells bytes) (live : cells.live addr = true)
    (value : Addr) : ∃ after, (writeNext addr value : ByteM Unit) bytes = .ok ((), after) ∧
      Mirrors slots { cells with next := update cells.next addr value } after := by
  refine mirrors.storeField live (by simp [sizeofStruct]) rfl ?_ ?_
  · simpa [Heap.fields] using (mirrors.image addr live).blit_next value
  · intro other different
    simp [Heap.fields, update_of_ne different]

theorem Mirrors.writePrev (mirrors : Mirrors slots cells bytes) (live : cells.live addr = true)
    (value : Addr) : ∃ after, (writePrev addr value : ByteM Unit) bytes = .ok ((), after) ∧
      Mirrors slots { cells with prev := update cells.prev addr value } after := by
  refine mirrors.storeField live (by simp [sizeofStruct]) rfl ?_ ?_
  · simpa [Heap.fields] using (mirrors.image addr live).blit_prev value
  · intro other different
    simp [Heap.fields, update_of_ne different]

theorem Mirrors.writeWord (mirrors : Mirrors slots cells bytes) (live : cells.live addr = true)
    (value : Word) : ∃ after, (writeWord addr value : ByteM Unit) bytes = .ok ((), after) ∧
      Mirrors slots { cells with word := update cells.word addr value } after := by
  refine mirrors.storeField live (by simp [sizeofStruct]) rfl ?_ ?_
  · simpa [Heap.fields] using (mirrors.image addr live).blit_word value
  · intro other different
    simp [Heap.fields, update_of_ne different]

theorem find?_erase_other {objects : List Object} {object : Object} {wanted : Nat}
    (different : object.addr ≠ wanted) :
    (objects.erase object).find? (fun other => other.addr = wanted) =
      objects.find? fun other => other.addr = wanted := by
  induction objects with
  | nil => rfl
  | cons first rest ih =>
      by_cases same : first = object
      · subst same
        simp [different]
      · rw [List.erase_cons_tail (by simpa using same), List.find?_cons, List.find?_cons, ih]

theorem Mirrors.kfree (mirrors : Mirrors slots cells bytes) (live : cells.live addr = true) :
    ∃ after, (kfree addr : ByteM Unit) bytes = .ok ((), after) ∧
      Mirrors slots { cells with live := update cells.live addr false } after := by
  have found := mirrors.object addr live
  have survives (other : Addr) (alive : update cells.live addr false other = true) :
      other ≠ addr ∧ cells.live other = true := by
    by_cases same : other = addr
    · simp [same] at alive
    · rw [update_of_ne same] at alive
      exact ⟨same, alive⟩
  refine ⟨_, by simp only [ListMemory.kfree, release, found]; rfl, ?_⟩
  constructor
  · intro other alive
    exact mirrors.slotted other (survives other alive).2
  · intro other alive
    exact mirrors.image other (survives other alive).2
  · exact mirrors.mapped
  · intro other alive
    obtain ⟨different, old⟩ := survives other alive
    rw [ByteHeap.object, find?_erase_other fun same => different (UInt64.toNat_inj.mp same).symm]
    exact mirrors.object other old
  · intro other alive
    obtain ⟨different, old⟩ := survives other alive
    refine (List.mem_erase_of_ne ?_).mpr (mirrors.owned other old)
    intro same
    exact different (UInt64.toNat_inj.mp (Block.mk.inj same).1)
  · intro block member
    obtain ⟨notFreed, old⟩ := (List.Nodup.mem_erase_iff mirrors.nodup).mp member
    rcases mirrors.blocks block old with ⟨other, alive, rfl⟩ | outside
    · left
      refine ⟨other, ?_, rfl⟩
      have different : other ≠ addr := by
        rintro rfl
        exact notFreed rfl
      simpa [update_of_ne different] using alive
    · exact .inr outside
  · exact mirrors.nodup.erase _

theorem Mirrors.vacant_iff_free (mirrors : Mirrors slots cells bytes) (slot : slots.Slot addr) :
    bytes.Vacant addr.toNat sizeofPointer ↔ cells.Free addr := by
  have fits := slots.fits addr slot
  have mapped := mirrors.mapped addr slot
  constructor
  · rintro ⟨-, -, -, disjoint⟩
    refine ⟨?_, slots.sane addr slot⟩
    by_contra alive
    have live : cells.live addr = true := Bool.not_eq_false _ ▸ alive
    have apart := disjoint _ (mirrors.owned addr live)
    simp only [sizeofPointer] at apart
    omega
  · rintro ⟨dead, notNull, -, -⟩
    unfold sizeofStruct at fits
    unfold ByteHeap.Vacant sizeofPointer
    refine ⟨?_, by omega, ?_, ?_⟩
    · intro null
      exact notNull (UInt64.toNat_inj.mp null)
    · exact fun index bound => mapped index (by unfold sizeofStruct; omega)
    · intro block member
      rcases mirrors.blocks block member with ⟨other, alive, rfl⟩ | outside
      · have different : addr ≠ other := by
          rintro rfl
          simp [dead] at alive
        have apart := slots.apart addr other slot (mirrors.slotted other alive) different
        simp only [sizeofStruct, sizeofPointer] at apart ⊢
        omega
      · have apart := outside addr slot
        unfold sizeofStruct at apart
        omega

theorem image_made (mem : Nat → UInt8) (addr : Addr) (fields : Fields) :
    Image (blit (blit (blit mem (addr.toNat + 0) (littleEndian 8 fields.next.toNat))
      (addr.toNat + 8) (littleEndian 8 fields.prev.toNat))
      (addr.toNat + 16) (littleEndian 4 fields.word.toNat)) addr fields := by
  constructor
  · rw [slice_blit_field _ _ (by omega), slice_blit_field _ _ (by omega)]
    exact slice_blit_littleEndian _ _ _ _
  · rw [slice_blit_field _ _ (by omega)]
    exact slice_blit_littleEndian _ _ _ _
  · exact slice_blit_littleEndian _ _ _ _

def ByteHeap.withStruct (bytes : ByteHeap) (addr : Nat) : ByteHeap :=
  { bytes with
    blocks := ⟨addr, sizeofPointer⟩ :: bytes.blocks
    objects := ⟨addr, .listStruct, sizeofPointer⟩ :: bytes.objects }

theorem addNode_run_bytes (value : Word) (vacant : bytes.Vacant addr.toNat sizeofPointer)
    (mapped : bytes.Mapped addr.toNat sizeofStruct) :
    ∃ after, (addNode addr value : ByteM Unit) bytes = .ok ((), after) ∧
      after.mem = blit (blit (blit bytes.mem (addr.toNat + 0) (littleEndian 8 addr.toNat))
        (addr.toNat + 8) (littleEndian 8 addr.toNat)) (addr.toNat + 16) (littleEndian 4 value.toNat) ∧
      SamePlaces (bytes.withStruct addr.toNat) after := by
  have allocated : (kmalloc addr sizeofPointer : ByteM Unit) bytes =
      .ok ((), bytes.withStruct addr.toNat) := by
    simp only [kmalloc, allocateStruct, allocate, if_pos vacant]
    rfl
  have room (offset length : Nat) (inside : offset + length ≤ sizeofStruct) :
      (bytes.withStruct addr.toNat).Mapped (addr.toNat + offset) length := mapped.within inside
  obtain ⟨first, nextStored, nextMem, samePlaces⟩ := storeField_run
    (room 0 (littleEndian 8 addr.toNat).length (by simp [sizeofStruct]))
  obtain ⟨second, prevStored, prevMem, places⟩ := storeField_run
    (samePlaces.mappedAt (room 8 (littleEndian 8 addr.toNat).length (by simp [sizeofStruct])))
  have samePlaces := samePlaces.trans places
  obtain ⟨after, wordStored, wordMem, places⟩ := storeField_run
    (samePlaces.mappedAt (room 16 (littleEndian 4 value.toNat).length (by simp [sizeofStruct])))
  refine ⟨after, ?_, ?_, samePlaces.trans places⟩
  · simp only [addNode, initListHead, bind_apply, allocated, ListMemory.writeNext, nextStored,
      ListMemory.writePrev, prevStored, ListMemory.writeWord, wordStored]
  · rw [wordMem, prevMem, nextMem]
    rfl

theorem Heap.make_live_other {value : Word} {other : Addr}
    (alive : (cells.make addr value).live other = true) (different : other ≠ addr) :
    cells.live other = true := by
  rwa [Heap.make_live, update_of_ne different] at alive

theorem Mirrors.image_make (mirrors : Mirrors slots cells bytes) (slot : slots.Slot addr)
    (value : Word) (other : Addr) (alive : (cells.make addr value).live other = true) :
    Image (blit (blit (blit bytes.mem (addr.toNat + 0) (littleEndian 8 addr.toNat))
      (addr.toNat + 8) (littleEndian 8 addr.toNat)) (addr.toNat + 16) (littleEndian 4 value.toNat))
      other ((cells.make addr value).fields other) := by
  by_cases same : other = addr
  · rw [same]
    simpa [Heap.fields] using image_made bytes.mem addr ⟨addr, addr, value⟩
  · have old := Heap.make_live_other alive same
    have apart := slots.apart other addr (mirrors.slotted other old) slot same
    unfold sizeofStruct at apart
    have fields : (cells.make addr value).fields other = cells.fields other := by
      simp [Heap.fields, update_of_ne same]
    rw [fields]
    apply Image.blit_apart _ (by simp [sizeofStruct]; omega)
    apply Image.blit_apart _ (by simp [sizeofStruct]; omega)
    exact (mirrors.image other old).blit_apart (by simp [sizeofStruct]; omega)

theorem Mirrors.addNode (mirrors : Mirrors slots cells bytes) (slot : slots.Slot addr)
    (free : cells.Free addr) (value : Word) :
    ∃ after, (addNode addr value : ByteM Unit) bytes = .ok ((), after) ∧
      Mirrors slots (cells.make addr value) after := by
  have vacant := (mirrors.vacant_iff_free slot).mpr free
  obtain ⟨after, ran, mem, places⟩ := addNode_run_bytes value vacant (mirrors.mapped addr slot)
  refine ⟨after, ran, ?_⟩
  constructor
  · intro other alive
    by_cases same : other = addr
    · rw [same]
      exact slot
    · exact mirrors.slotted other (Heap.make_live_other alive same)
  · intro other alive
    rw [mem]
    exact mirrors.image_make slot value other alive
  · intro other otherSlot
    exact places.mappedAt (mirrors.mapped other otherSlot)
  · intro other alive
    rw [ByteHeap.object, places.objects, ByteHeap.withStruct, List.find?_cons]
    by_cases same : other = addr
    · simp [same]
    · have different : addr.toNat ≠ other.toNat := fun equal => same (UInt64.toNat_inj.mp equal).symm
      simp only [different, decide_false]
      exact mirrors.object other (Heap.make_live_other alive same)
  · intro other alive
    rw [places.blocks, ByteHeap.withStruct]
    by_cases same : other = addr
    · simp [same]
    · exact List.mem_cons_of_mem _ (mirrors.owned other (Heap.make_live_other alive same))
  · intro block member
    rw [places.blocks, ByteHeap.withStruct] at member
    rcases List.mem_cons.mp member with rfl | old
    · exact .inl ⟨addr, by simp, rfl⟩
    · rcases mirrors.blocks block old with ⟨other, alive, rfl⟩ | outside
      · refine .inl ⟨other, ?_, rfl⟩
        by_cases same : other = addr
        · simp [same]
        · rw [Heap.make_live, update_of_ne same]
          exact alive
      · exact .inr outside
  · rw [places.blocks, ByteHeap.withStruct]
    refine List.nodup_cons.mpr ⟨?_, mirrors.nodup⟩
    intro taken
    obtain ⟨-, -, -, disjoint⟩ := vacant
    have apart := disjoint _ taken
    simp only [sizeofPointer] at apart
    omega

theorem simulates_access {α : Type} {result : Heap → α × Heap} {action : ByteM α}
    (matched : ∀ cells bytes, Mirrors slots cells bytes → cells.live addr = true →
      ∃ after, action bytes = .ok ((result cells).1, after) ∧ Mirrors slots (result cells).2 after) :
    Simulates (Mirrors slots) (CellM.access addr result) action := by
  intro cells bytes value after mirrors ran
  obtain ⟨live, same⟩ := access_ok ran
  have here := matched cells bytes mirrors live
  rwa [same] at here

theorem mirrors_closed (slots : Slots) :
    Closed slots.Slot fun α (cell : CellM α) (byte : ByteM α) =>
      Simulates (Mirrors slots) cell byte where
  pure := Simulates.pure
  bind := Simulates.bind
  readNext _ := simulates_access fun _ bytes mirrors live => ⟨bytes, mirrors.readNext live, mirrors⟩
  readPrev _ := simulates_access fun _ bytes mirrors live => ⟨bytes, mirrors.readPrev live, mirrors⟩
  readWord _ := simulates_access fun _ bytes mirrors live => ⟨bytes, mirrors.readWord live, mirrors⟩
  writeNext _ value := simulates_access fun _ _ mirrors live => mirrors.writeNext live value
  writePrev _ value := simulates_access fun _ _ mirrors live => mirrors.writePrev live value
  writeWord _ value := simulates_access fun _ _ mirrors live => mirrors.writeWord live value
  addNode node value slot := by
    intro cells bytes result after mirrors ran
    have free := addNode_free ran
    rw [addNode_run value free] at ran
    cases ran
    exact mirrors.addNode slot free value
  kfree _ := simulates_access fun _ _ mirrors live => mirrors.kfree live
  fault _ := by
    intro cells bytes value after mirrors ran
    simp [ListMemory.fault] at ran

end Mirrors

end LearnK.Container
