import LearnK.Container.Slots
import LearnK.Strings.Memory

/-! What a string owns in memory, and what of it is left alone by calls on other strings. -/

namespace LearnK.Strings

open ByteMemory CInt CString FaultM
open Container (Addr Block ByteHeap ByteM load loadPointer storeField storeBuffer allocate
  allocateStruct release sizeofPointer SamePlaces slice_blit_littleEndian slice_blit_field load_run
  loadPointer_run storeField_run)

theorem le_reach (size : Nat) : size ≤ reach size := Nat.le_max_left _ _

theorem reach_pos (size : Nat) : 0 < reach size :=
  Nat.lt_of_lt_of_le (by decide) (Nat.le_max_right size sizeofView)

theorem reach_view : reach sizeofPointer = 24 := rfl

def Block.Apart (first second : Block) : Prop :=
  first.base + reach first.size ≤ second.base ∨ second.base + reach second.size ≤ first.base

def Spaced (blocks : List Block) : Prop := blocks.Pairwise Block.Apart

section Blocks

variable {blocks : List Block} {first second block : Block}

theorem Block.Apart.symm (apart : Block.Apart first second) : Block.Apart second first := Or.symm apart

theorem Block.Apart.base_ne (apart : Block.Apart first second) : first.base ≠ second.base := by
  have one := reach_pos first.size
  have other := reach_pos second.size
  rcases apart with below | above <;> omega

theorem Spaced.apart (spaced : Spaced blocks) (member : first ∈ blocks) (other : second ∈ blocks)
    (different : first.base ≠ second.base) : Block.Apart first second := by
  have symmetric : Std.Symm Block.Apart := ⟨fun _ _ => Block.Apart.symm⟩
  exact List.Pairwise.forall spaced member other fun same => different (congrArg Block.base same)

theorem mem_erase_of_base {addr size : Nat} (member : block ∈ blocks) (other : block.base ≠ addr) :
    block ∈ blocks.erase ⟨addr, size⟩ :=
  (List.mem_erase_of_ne fun same => other (congrArg Block.base same)).mpr member

theorem Spaced.find (spaced : Spaced blocks) (member : block ∈ blocks) :
    blocks.find? (fun other => other.base = block.base) = some block := by
  induction blocks with
  | nil => simp at member
  | cons head rest ih =>
      obtain ⟨early, later⟩ := List.pairwise_cons.mp spaced
      rcases List.mem_cons.mp member with rfl | inRest
      · simp
      · have different := (early block inRest).base_ne
        rw [List.find?_cons_of_neg (by simpa using different)]
        exact ih later inRest

theorem Spaced.erase (spaced : Spaced blocks) (block : Block) : Spaced (blocks.erase block) :=
  List.Pairwise.sublist List.erase_sublist spaced

theorem Spaced.cons {heap : ByteHeap} {addr size : Nat} (spaced : Spaced heap.blocks)
    (roomy : Roomy heap addr size) : Spaced (⟨addr, size⟩ :: heap.blocks) :=
  List.pairwise_cons.mpr ⟨roomy.2.2.2, spaced⟩

end Blocks

def Fresh (heap : ByteHeap) (addr : Nat) : Prop := ∀ block ∈ heap.blocks, block.base ≠ addr

/-- What was not `mine` is as it was. -/
structure Frame (mine : Nat → Prop) (heap after : ByteHeap) : Prop where
  mapped : after.mapped = heap.mapped
  blocks : ∀ block ∈ heap.blocks, ¬mine block.base → block ∈ after.blocks
  bytes : ∀ block ∈ heap.blocks, ¬mine block.base → ∀ addr, block.base ≤ addr →
    addr < block.base + reach block.size → after.mem addr = heap.mem addr
  objects : ∀ addr, ¬mine addr → after.object addr = heap.object addr

section Frame

variable {mine : Nat → Prop} {heap middle after : ByteHeap}

theorem Frame.refl (mine : Nat → Prop) (heap : ByteHeap) : Frame mine heap heap :=
  ⟨rfl, fun _ member _ => member, fun _ _ _ _ _ _ => rfl, fun _ _ => rfl⟩

theorem Frame.trans (early : Frame mine heap middle) (late : Frame mine middle after) :
    Frame mine heap after where
  mapped := late.mapped.trans early.mapped
  blocks block member other := late.blocks block (early.blocks block member other) other
  bytes block member other addr low high :=
    (late.bytes block (early.blocks block member other) other addr low high).trans
      (early.bytes block member other addr low high)
  objects addr other := (late.objects addr other).trans (early.objects addr other)

theorem Frame.mono {more : Nat → Prop} (frame : Frame mine heap after)
    (wider : ∀ addr, mine addr → more addr) : Frame more heap after where
  mapped := frame.mapped
  blocks block member other := frame.blocks block member fun here => other (wider _ here)
  bytes block member other := frame.bytes block member fun here => other (wider _ here)
  objects addr other := frame.objects addr fun here => other (wider _ here)

end Frame

structure ViewFields (mem : Nat → UInt8) (view str len cap : Nat) : Prop where
  str : slice mem view 8 = littleEndian 8 str
  len : slice mem (view + 8) 4 = littleEndian 4 len
  cap : slice mem (view + 16) 8 = littleEndian 8 cap

section Fields

variable {mem after : Nat → UInt8} {view str len cap : Nat}

theorem ViewFields.congr (fields : ViewFields mem view str len cap)
    (same : ∀ addr, view ≤ addr → addr < view + 24 → after addr = mem addr) :
    ViewFields after view str len cap := by
  constructor
  · rw [← fields.str]
    exact slice_congr fun index bound => same _ (by omega) (by omega)
  · rw [← fields.len]
    exact slice_congr fun index bound => same _ (by omega) (by omega)
  · rw [← fields.cap]
    exact slice_congr fun index bound => same _ (by omega) (by omega)

theorem ViewFields.blit_apart (fields : ViewFields mem view str len cap) {start : Nat}
    {bytes : List UInt8} (apart : view + 24 ≤ start ∨ start + bytes.length ≤ view) :
    ViewFields (blit mem start bytes) view str len cap := by
  refine fields.congr fun addr low high => ?_
  rcases apart with below | above
  · exact blit_below _ _ (by omega)
  · exact blit_above _ _ (by omega)

theorem ViewFields.blit_str (fields : ViewFields mem view str len cap) (value : Nat) :
    ViewFields (blit mem (view + 0) (littleEndian 8 value)) view value len cap := by
  constructor
  · exact slice_blit_littleEndian _ _ _ _
  · rw [slice_blit_field _ _ (by omega), fields.len]
  · rw [slice_blit_field _ _ (by omega), fields.cap]

theorem ViewFields.blit_len (fields : ViewFields mem view str len cap) (value : Nat) :
    ViewFields (blit mem (view + 8) (littleEndian 4 value)) view str value cap := by
  constructor
  · rw [slice_blit_field _ _ (by omega), fields.str]
  · exact slice_blit_littleEndian _ _ _ _
  · rw [slice_blit_field _ _ (by omega), fields.cap]

theorem ViewFields.blit_cap (fields : ViewFields mem view str len cap) (value : Nat) :
    ViewFields (blit mem (view + 16) (littleEndian 8 value)) view str len value := by
  constructor
  · rw [slice_blit_field _ _ (by omega), fields.str]
  · rw [slice_blit_field _ _ (by omega), fields.len]
  · exact slice_blit_littleEndian _ _ _ _

end Fields

section Loads

variable {heap : ByteHeap} {view str : Addr} {len cap : Nat}

theorem ViewFields.load_str (fields : ViewFields heap.mem view.toNat str.toNat len cap)
    (mapped : heap.Mapped view.toNat sizeofView) : loadPointer view.toNat heap = .ok (str, heap) :=
  loadPointer_run (fun index bound => mapped index (by unfold sizeofView; omega)) fields.str

theorem ViewFields.load_len {str : Nat} (fields : ViewFields heap.mem view.toNat str len cap)
    (mapped : heap.Mapped view.toNat sizeofView) (bound : len < 4294967296) :
    load (view.toNat + 8) 4 heap = .ok (len, heap) :=
  load_run (mapped.within (by decide)) fields.len bound

theorem ViewFields.load_cap {str : Nat} (fields : ViewFields heap.mem view.toNat str len cap)
    (mapped : heap.Mapped view.toNat sizeofView) (bound : cap < 18446744073709551616) :
    load (view.toNat + 16) 8 heap = .ok (cap, heap) :=
  load_run (mapped.within (by decide)) fields.cap bound

theorem storeView_run (mapped : heap.Mapped view.toNat sizeofView) (offset width value : Nat)
    (inside : offset + width ≤ sizeofView) :
    ∃ after, storeField view.toNat offset (littleEndian width value) heap = .ok ((), after) ∧
      after.mem = blit heap.mem (view.toNat + offset) (littleEndian width value) ∧
      SamePlaces heap after := by
  rw [← littleEndian_length width value] at inside
  exact storeField_run (mapped.within inside)

theorem storeBuffer_run (owner : Nat) {start size offset : Nat} (bytes : List UInt8)
    (mapped : heap.Mapped start size) (inside : offset + bytes.length ≤ size) :
    ∃ after, storeBuffer owner start offset bytes heap = .ok ((), after) ∧
      after.mem = blit heap.mem (start + offset) bytes ∧ SamePlaces heap after :=
  ⟨_, if_pos (mapped.within inside), rfl, rfl, rfl, rfl⟩

theorem load_byte {addr : Nat} (mapped : heap.Mapped addr 1) :
    load addr 1 heap = .ok ((heap.mem addr).toNat, heap) := by
  rw [load, if_pos mapped]
  simp [slice, ofLittleEndian]

end Loads

structure StoredAt (heap : ByteHeap) (view base : Addr) (cap : Nat) (text : List UInt8) : Prop where
  object : heap.object view.toNat = some ⟨view.toNat, .stringView, sizeofPointer⟩
  viewBlock : ⟨view.toNat, sizeofPointer⟩ ∈ heap.blocks
  block : ⟨base.toNat, cap⟩ ∈ heap.blocks
  different : view ≠ base
  notNull : base ≠ 0
  viewMapped : heap.Mapped view.toNat sizeofView
  mapped : heap.Mapped base.toNat cap
  fields : ViewFields heap.mem view.toNat base.toNat text.length cap
  holds : (stringView heap base.toNat text.length cap cap).HoldsText text

section Stored

variable {heap after : ByteHeap} {view base : Addr} {cap : Nat} {text : List UInt8}

theorem StringView.HoldsText.ofBytes {s : StringView} {buffer : Buffer} (holds : s.HoldsText text)
    (held : s.str = some buffer) {base : Nat}
    (same : ∀ index < s.cap, after.mem (base + index) = buffer.data index) :
    (stringView after base s.len s.cap s.cap).HoldsText text := by
  obtain ⟨other, held', size, terminated⟩ := holds.wellFormed.buffer
  obtain rfl : buffer = other := Option.some.inj (held.symm.trans held')
  have room := holds.wellFormed.room
  refine ⟨⟨holds.wellFormed.width, room, ⟨_, rfl, rfl, ?_⟩, by simp [stringView]⟩, holds.small, ?_⟩
  · refine terminated_congr terminated fun index bound => same index ?_
    have within : index ≤ s.len := bound
    omega
  · rw [← holds.content, StringView.content, StringView.content, held]
    refine slice_congr fun index bound => ?_
    have inside : index < s.len := bound
    rw [Nat.zero_add]
    exact same index (by omega)

theorem StoredAt.width (stored : StoredAt heap view base cap text) :
    cap < 18446744073709551616 := stored.holds.wellFormed.width

theorem StoredAt.room (stored : StoredAt heap view base cap text) : text.length < cap :=
  stored.holds.wellFormed.room

theorem StoredAt.small (stored : StoredAt heap view base cap text) : text.length ≤ 4096 :=
  stored.holds.small

theorem StoredAt.terminated (stored : StoredAt heap view base cap text) :
    Terminated (fun index => heap.mem (base.toNat + index)) text.length := by
  obtain ⟨buffer, held, -, terminated⟩ := stored.holds.wellFormed.buffer
  obtain rfl := Option.some.inj held
  exact terminated

theorem StoredAt.viewApart (stored : StoredAt heap view base cap text) (spaced : Spaced heap.blocks) :
    view.toNat + 24 ≤ base.toNat ∨ base.toNat + cap ≤ view.toNat := by
  have apart := spaced.apart stored.viewBlock stored.block fun same =>
    stored.different (UInt64.toNat_inj.mp same)
  have reached := le_reach cap
  simp only [Block.Apart, reach_view] at apart
  omega

theorem StoredAt.frame {mine : Nat → Prop} (stored : StoredAt heap view base cap text)
    (frame : Frame mine heap after) (viewOther : ¬mine view.toNat) (baseOther : ¬mine base.toNat) :
    StoredAt after view base cap text := by
  have bytes (index : Nat) (bound : index < cap) :
      after.mem (base.toNat + index) = heap.mem (base.toNat + index) := by
    refine frame.bytes _ stored.block baseOther _ (Nat.le_add_right _ _) ?_
    exact Nat.add_lt_add_left (Nat.lt_of_lt_of_le bound (le_reach cap)) _
  refine ⟨?_, frame.blocks _ stored.viewBlock viewOther, frame.blocks _ stored.block baseOther,
    stored.different, stored.notNull, ?_, ?_, ?_, stored.holds.ofBytes rfl bytes⟩
  · rw [frame.objects _ viewOther, stored.object]
  · rw [ByteHeap.Mapped, frame.mapped]
    exact stored.viewMapped
  · rw [ByteHeap.Mapped, frame.mapped]
    exact stored.mapped
  · exact stored.fields.congr (frame.bytes _ stored.viewBlock viewOther)

end Stored

end LearnK.Strings
