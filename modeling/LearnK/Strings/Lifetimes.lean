import LearnK.Strings.Placed

/-! Strings are made, looked at and freed in memory without harm to the others. -/

namespace LearnK.Strings

open ByteMemory CInt CString FaultM DataType
open Container (Addr Block Object ByteHeap ByteM load loadPointer storeField storeBuffer allocate
  allocateStruct release sizeofPointer lenExceeds stringFill SamePlaces storeField_run find?_erase_other)

section

variable {heap : ByteHeap} {view base : Addr} {cap : Nat} {text : List UInt8}

theorem Roomy.vacant {addr size : Nat} (roomy : Roomy heap addr size) : heap.Vacant addr size := by
  obtain ⟨notNull, fits, mapped, apart⟩ := roomy
  have reached := le_reach size
  refine ⟨notNull, by omega, fun index bound => mapped index (by omega), fun block member => ?_⟩
  have other := le_reach block.size
  have gap := apart block member
  omega

theorem Roomy.fresh {addr size : Nat} (roomy : Roomy heap addr size) : Fresh heap addr := by
  intro block member taken
  have apart : Block.Apart ⟨addr, size⟩ block := roomy.2.2.2 block member
  exact apart.base_ne taken.symm

theorem grant_run {addr : Addr} {size : Nat} (granted : grant addr size heap ≠ .error .badPlacement) :
    grant addr size heap = .ok ((), heap) ∧ Roomy heap addr.toNat size := by
  rw [grant] at granted ⊢
  by_cases roomy : Roomy heap addr.toNat size
  · exact ⟨if_pos roomy, roomy⟩
  · rw [if_neg roomy] at granted
    exact absurd rfl granted

theorem bufferAt_run (spaced : Spaced heap.blocks) (block : ⟨base.toNat, cap⟩ ∈ heap.blocks) :
    bufferAt base heap = .ok (some ⟨fun index => heap.mem (base.toNat + index), cap⟩, heap) := by
  rw [bufferAt, spaced.find block]
  rfl

theorem viewAt_run (stored : StoredAt heap view base cap text) (spaced : Spaced heap.blocks) :
    viewAt view heap = .ok (stringView heap base.toNat text.length cap cap, heap) := by
  have small := stored.small
  rw [viewAt, bind_run (stored.fields.load_str stored.viewMapped),
    bind_run (stored.fields.load_len stored.viewMapped (by omega)),
    bind_run (stored.fields.load_cap stored.viewMapped stored.width),
    bind_run (bufferAt_run spaced stored.block)]
  rfl

theorem nulIndex_congr {first second : Nat → UInt8} {fuel start : Nat}
    (same : ∀ index, start ≤ index → index < start + fuel → first index = second index) :
    nulIndex first fuel start = nulIndex second fuel start := by
  induction fuel generalizing start with
  | zero => rfl
  | succ fuel ih =>
      rw [nulIndex, nulIndex, same start (Nat.le_refl _) (by omega)]
      exact if_congr Iff.rfl rfl (ih fun index low high => same index (by omega) (by omega))

theorem Buffer.string_congr {first second : Nat → UInt8} {size : Nat}
    (same : ∀ index < size, first index = second index) :
    Buffer.string ⟨first, size⟩ = Buffer.string ⟨second, size⟩ := by
  have scans : nulIndex first size 0 = nulIndex second size 0 :=
    nulIndex_congr fun index _ high => same index (by omega)
  rw [Buffer.string, Buffer.string]
  simp only [scans]
  cases scanned : nulIndex second size 0 with
  | none => rfl
  | some nul =>
      obtain ⟨-, inside, -⟩ := nulIndex_first scanned
      exact congrArg some (slice_congr fun index bound => same _ (by omega))

theorem kfree_run (spaced : Spaced heap.blocks) (block : ⟨base.toNat, cap⟩ ∈ heap.blocks) :
    kfree base heap = .ok ((), { heap with blocks := heap.blocks.erase ⟨base.toNat, cap⟩ }) := by
  rw [kfree, spaced.find block]

theorem readCopy_run {buffer : Buffer} {copy : Addr} (spaced : Spaced heap.blocks)
    (held : buffer.string = some text) (granted : readCopy buffer copy heap ≠ .error .badPlacement) :
    ∃ after, readCopy buffer copy heap = .ok (.str text, after) ∧ after.blocks = heap.blocks ∧
      Frame (Fresh heap) heap after := by
  rw [readCopy] at granted ⊢
  obtain ⟨given, roomy⟩ := grant_run fun refused => granted (bind_error refused)
  have spacedMade := spaced.cons roomy
  let left : ByteHeap := { heap with mem := leaveIn heap.mem copy.toNat buffer.size buffer.data }
  let made : ByteHeap := { left with blocks := ⟨copy.toNat, buffer.size⟩ :: heap.blocks }
  have remains : leave copy buffer.size buffer.data heap = .ok ((), left) := rfl
  have vacant : left.Vacant copy.toNat buffer.size := roomy.vacant
  have allocated : allocate copy.toNat buffer.size left = .ok ((), made) := if_pos vacant
  have block : (⟨copy.toNat, buffer.size⟩ : Block) ∈ made.blocks := List.mem_cons_self
  have same (index : Nat) (bound : index < buffer.size) :
      made.mem (copy.toNat + index) = buffer.data index := by
    show leaveIn heap.mem copy.toNat buffer.size buffer.data (copy.toNat + index) = _
    rw [leaveIn, if_pos ⟨by omega, by omega⟩, Nat.add_sub_cancel_left]
  have text' : Buffer.string ⟨fun index => made.mem (copy.toNat + index), buffer.size⟩ = some text :=
    (Buffer.string_congr same).trans held
  have freed : made.blocks.erase ⟨copy.toNat, buffer.size⟩ = heap.blocks := List.erase_cons_head _ _
  refine ⟨{ left with blocks := heap.blocks }, ?_, rfl, rfl, fun _ member _ => member, ?_, fun _ _ => rfl⟩
  · have released : kfree copy made = .ok ((), { left with blocks := heap.blocks }) := by
      rw [kfree_run spacedMade block, freed]
    rw [bind_run given, bind_run remains, bind_run allocated, bind_run (bufferAt_run spacedMade block),
      Option.bind_some, text']
    exact bind_run released
  · intro other member notMine addr low high
    have apart : Block.Apart ⟨copy.toNat, buffer.size⟩ other := roomy.2.2.2 other member
    have reached := le_reach buffer.size
    simp only [Block.Apart] at apart
    exact if_neg (by omega)

theorem readCopied_run {made : Option (Option Buffer)} {copy : Addr} {answer : Answer}
    (spaced : Spaced heap.blocks) (read : made.bind readBack = some answer)
    (granted : readCopied made copy heap ≠ .error .badPlacement) :
    ∃ after, readCopied made copy heap = .ok (answer, after) ∧ after.blocks = heap.blocks ∧
      Frame (Fresh heap) heap after := by
  cases made with
  | none => simp at read
  | some made =>
      rw [Option.bind_some] at read
      cases made with
      | none =>
          obtain rfl := Option.some.inj read
          exact ⟨heap, rfl, rfl, Frame.refl _ heap⟩
      | some buffer =>
          obtain ⟨text, held, rfl⟩ := Option.map_eq_some_iff.mp read
          exact readCopy_run spaced held granted

theorem stringQueryAt_run {query : Query} {copy : Addr} (stored : StoredAt heap view base cap text)
    (spaced : Spaced heap.blocks) (small : query.patternLength < 4294967296)
    (granted : stringQueryAt query copy view heap ≠ .error .badPlacement) :
    ∃ after, stringQueryAt query copy view heap = .ok (textQuery text query, after) ∧
      after.blocks = heap.blocks ∧
      Frame (Fresh heap) heap after := by
  have asked := stringQuery_text stored.holds query small
  have seen := viewAt_run stored spaced
  rw [stringQueryAt, bind_run seen] at granted ⊢
  cases query with
  | char kmalloc =>
      rw [stringQuery] at asked
      simp only at granted ⊢
      exact readCopied_run spaced asked granted
  | substring kmalloc start stop =>
      rw [stringQuery] at asked
      simp only at granted ⊢
      exact readCopied_run spaced asked granted
  | index _ | lastIndex _ | len | hasPrefix _ | hasSuffix _ | hasSubstring _ | print =>
      have ran : answered (stringQuery (stringView heap base.toNat text.length cap cap) _) heap = _ :=
        congrArg (answered · heap) asked
      exact ⟨heap, ran, rfl, Frame.refl _ heap⟩

theorem ViewFields.exists (mem : Nat → UInt8) (view : Nat) :
    ∃ str len cap, ViewFields mem view str len cap := by
  have held (start width : Nat) :
      slice mem start width = littleEndian width (ofLittleEndian (slice mem start width)) := by
    have same := littleEndian_ofLittleEndian (slice mem start width)
    rw [slice_length] at same
    exact same.symm
  exact ⟨_, _, _, held _ _, held _ _, held _ _⟩

structure Begun (heap made : ByteHeap) (view : Addr) (len : Nat) : Prop where
  blocks : made.blocks = ⟨view.toNat, sizeofPointer⟩ :: heap.blocks
  objects : made.objects = ⟨view.toNat, .stringView, sizeofPointer⟩ :: heap.objects
  mapped : made.mapped = heap.mapped
  fields : ∃ str cap, ViewFields made.mem view.toNat str len cap
  outside : ∀ addr, ¬(view.toNat ≤ addr ∧ addr < view.toNat + 24) → made.mem addr = heap.mem addr

theorem begun_run (roomy : Roomy heap view.toNat sizeofPointer) (len : Nat) :
    ∃ first made, allocateStruct .stringView view.toNat sizeofPointer heap = .ok ((), first) ∧
      storeField view.toNat 8 (littleEndian 4 len) first = .ok ((), made) ∧ Begun heap made view len := by
  let first : ByteHeap := { heap with
    blocks := ⟨view.toNat, sizeofPointer⟩ :: heap.blocks
    objects := ⟨view.toNat, .stringView, sizeofPointer⟩ :: heap.objects }
  have allocated : allocateStruct .stringView view.toNat sizeofPointer heap = .ok ((), first) := by
    rw [allocateStruct, allocate, if_pos roomy.vacant]
    rfl
  have mapped : first.Mapped view.toNat sizeofView := roomy.2.2.1
  obtain ⟨made, stored, mem, places⟩ := storeView_run mapped 8 4 len (by decide)
  refine ⟨first, made, allocated, stored, places.blocks, places.objects, places.mapped, ?_,
    fun addr off => ?_⟩
  · obtain ⟨str, before, cap, fields⟩ := ViewFields.exists first.mem view.toNat
    exact ⟨str, cap, mem ▸ fields.blit_len len⟩
  · rw [mem, blit_elsewhere (by rw [littleEndian_length]; omega)]

theorem abandon_run {made : ByteHeap} {len : Nat} (begun : Begun heap made view len)
    (roomy : Roomy heap view.toNat sizeofPointer) :
    ∃ fourth fifth after, storeField view.toNat 16 (littleEndian 8 cap) made = .ok ((), fourth) ∧
      storeField view.toNat 0 (littleEndian 8 0) fourth = .ok ((), fifth) ∧
      release view.toNat fifth = .ok ((), after) ∧ after.blocks = heap.blocks ∧
      Frame (· = view.toNat) heap after := by
  have mapped : made.Mapped view.toNat sizeofView := by
    rw [ByteHeap.Mapped, begun.mapped]
    exact roomy.2.2.1
  obtain ⟨fourth, stored₄, mem₄, places₄⟩ := storeView_run mapped 16 8 cap (by decide)
  obtain ⟨fifth, stored₅, mem₅, places₅⟩ := storeView_run (places₄.mappedAt mapped) 0 8 0 (by decide)
  have places := places₄.trans places₅
  have objects : fifth.objects = ⟨view.toNat, .stringView, sizeofPointer⟩ :: heap.objects :=
    places.objects.trans begun.objects
  have blocks : fifth.blocks = ⟨view.toNat, sizeofPointer⟩ :: heap.blocks :=
    places.blocks.trans begun.blocks
  have object : fifth.object view.toNat = some ⟨view.toNat, .stringView, sizeofPointer⟩ := by
    rw [ByteHeap.object, objects, List.find?_cons_of_pos (by simp)]
  have released : release view.toNat fifth =
      .ok ((), { fifth with blocks := heap.blocks, objects := heap.objects }) := by
    rw [release, object, blocks, objects]
    simp only [List.erase_cons_head]
  refine ⟨fourth, fifth, _, stored₄, stored₅, released, rfl,
    ⟨places.mapped.trans begun.mapped, fun _ member _ => member,
      fun other member notMine addr low high => ?_, fun _ _ => rfl⟩⟩
  have apart : Block.Apart ⟨view.toNat, sizeofPointer⟩ other := roomy.2.2.2 other member
  simp only [Block.Apart, reach_view] at apart
  show fifth.mem addr = heap.mem addr
  rw [mem₅, blit_elsewhere (by rw [littleEndian_length]; omega), mem₄,
    blit_elsewhere (by rw [littleEndian_length]; omega), begun.outside addr (by omega)]

theorem stringFill_run {left : ByteHeap} {str : Text} {capacity : UInt64} {garbage : Nat → UInt8}
    (fields : ∃ before cap, ViewFields left.mem view.toNat before str.strlen cap)
    (small : str.strlen ≤ 4096) (room : str.strlen < capacity.toNat)
    (vacant : left.Vacant base.toNat capacity.toNat) (mapped : left.Mapped view.toNat sizeofView)
    (apart : view.toNat + 24 ≤ base.toNat ∨ base.toNat + capacity.toNat ≤ view.toNat)
    (remains : ∀ index < capacity.toNat, left.mem (base.toNat + index) = garbage index) :
    ∃ after, stringFill str capacity view base left = .ok ((), after) ∧
      after.blocks = ⟨base.toNat, capacity.toNat⟩ :: left.blocks ∧ after.objects = left.objects ∧
      after.mapped = left.mapped ∧ ViewFields after.mem view.toNat base.toNat str.strlen capacity.toNat ∧
      (∀ index < capacity.toNat, after.mem (base.toNat + index) =
        blit (blit garbage 0 str.bytes) str.strlen [0] index) ∧
      ∀ addr, ¬(view.toNat ≤ addr ∧ addr < view.toNat + 24) →
        ¬(base.toNat ≤ addr ∧ addr < base.toNat + capacity.toNat) → after.mem addr = left.mem addr := by
  obtain ⟨before, oldCap, fields₀⟩ := fields
  have width : capacity.toNat < 18446744073709551616 := capacity.toNat_lt
  have copied : strncpyBytes str str.strlen = str.bytes := strncpyBytes_all str
  have size : str.bytes.length = str.strlen := rfl
  -- s->cap, then the buffer, then s->str
  obtain ⟨first, stored₁, mem₁, places₁⟩ := storeView_run mapped 16 8 capacity.toNat (by decide)
  have fields₁ : ViewFields first.mem view.toNat before str.strlen capacity.toNat := by
    rw [mem₁]
    exact fields₀.blit_cap _
  let second : ByteHeap := { first with blocks := ⟨base.toNat, capacity.toNat⟩ :: first.blocks }
  have allocated : allocate base.toNat capacity.toNat first = .ok ((), second) := by
    refine if_pos ⟨vacant.1, vacant.2.1, places₁.mappedAt vacant.2.2.1, ?_⟩
    rw [places₁.blocks]
    exact vacant.2.2.2
  have viewMapped : second.Mapped view.toNat sizeofView := places₁.mappedAt mapped
  have baseMapped : second.Mapped base.toNat capacity.toNat := places₁.mappedAt vacant.2.2.1
  obtain ⟨third, stored₃, mem₃, places₃⟩ := storeView_run viewMapped 0 8 base.toNat (by decide)
  have fields₃ : ViewFields third.mem view.toNat base.toNat str.strlen capacity.toNat := by
    rw [mem₃]
    exact ViewFields.blit_str fields₁ _
  -- the characters and the NUL
  obtain ⟨fourth, stored₄, mem₄, places₄⟩ :=
    storeBuffer_run view.toNat str.bytes (places₃.mappedAt baseMapped)
      (show 0 + str.bytes.length ≤ capacity.toNat by omega)
  have fields₄ : ViewFields fourth.mem view.toNat base.toNat str.strlen capacity.toNat := by
    rw [mem₄]
    exact fields₃.blit_apart (by omega)
  have places₂₄ := places₃.trans places₄
  obtain ⟨after, stored₅, mem₅, places₅⟩ :=
    storeBuffer_run view.toNat [0] (places₂₄.mappedAt baseMapped) (Nat.succ_le_of_lt room)
  have fields₅ : ViewFields after.mem view.toNat base.toNat str.strlen capacity.toNat := by
    rw [mem₅]
    exact fields₄.blit_apart (by simp only [List.length_singleton]; omega)
  have places := places₂₄.trans places₅
  refine ⟨after, ?_, ?_, places.objects.trans places₁.objects,
    places.mapped.trans places₁.mapped, fields₅, fun index bound => ?_,
    fun addr offView offBuffer => ?_⟩
  · rw [stringFill, bind_run stored₁, bind_run (fields₁.load_cap (places₁.mappedAt mapped) width),
      bind_run allocated, bind_run stored₃, bind_run (fields₃.load_str (places₃.mappedAt viewMapped)),
      bind_run (fields₃.load_len (places₃.mappedAt viewMapped) (by omega)), copied, bind_run stored₄,
      bind_run (fields₄.load_str (places₂₄.mappedAt viewMapped)),
      bind_run (fields₄.load_len (places₂₄.mappedAt viewMapped) (by omega))]
    exact stored₅
  · rw [places.blocks]
    exact congrArg (_ :: ·) places₁.blocks
  · rw [mem₅]
    refine blit_block _ _ ?_
    rw [mem₄]
    refine blit_block _ _ ?_
    rw [mem₃, blit_elsewhere (by rw [littleEndian_length]; omega)]
    show first.mem _ = _
    rw [mem₁, blit_elsewhere (by rw [littleEndian_length]; omega), remains index bound]
  · rw [mem₅, blit_elsewhere (by simp only [List.length_singleton]; omega), mem₄,
      blit_elsewhere (by omega), mem₃, blit_elsewhere (by rw [littleEndian_length]; omega)]
    show first.mem _ = _
    rw [mem₁, blit_elsewhere (by rw [littleEndian_length]; omega)]

theorem made_holds {str : Text} {capacity : UInt64} (garbage : Nat → UInt8) (small : str.strlen ≤ 4096)
    (room : str.strlen < capacity.toNat) :
    (StringView.mk (some ⟨blit (blit garbage 0 str.bytes) str.strlen [0], capacity.toNat⟩) str.strlen
      capacity.toNat [⟨0, str.strlen, capacity.toNat⟩, ⟨str.strlen, 1, capacity.toNat⟩]).HoldsText
        str.bytes := by
  obtain ⟨s, made, holds⟩ := stringNewCap_holdsText garbage small room
  have fits : ¬toU64 (toS32 str.strlen) > capacity.toNat := by
    unfold toU64 toS32
    omega
  have length : (toU32 (toS32 str.strlen)).toNat = str.strlen := by
    unfold toU32 toS32
    omega
  simp only [stringNewCap, if_neg fits, Bool.not_true, Bool.false_eq_true, if_false,
    Option.map_some, length, strncpyBytes_all, Option.some.injEq] at made
  rwa [← made] at holds

theorem lenExceeds_iff {str : Text} {capacity : UInt64} (small : str.strlen ≤ 4096) :
    lenExceeds str capacity ↔ capacity.toNat < str.strlen := by
  unfold lenExceeds toU64 toS32
  omega

theorem stringNewCapAt_run {new : NewCap} {garbage : Nat → UInt8} (spaced : Spaced heap.blocks)
    (small : new.str.strlen ≤ 4096) (room : new.str.strlen < new.cap.toNat)
    (viewGiven : new.kmallocView = true) (given : new.kmallocStr = some garbage)
    (granted : stringNewCapAt new view base heap ≠ .error .badPlacement) :
    ∃ after, stringNewCapAt new view base heap = .ok (view, after) ∧
      StoredAt after view base new.cap.toNat new.str.bytes ∧ Spaced after.blocks ∧
      Frame (OwnedBy view base) heap after ∧ Fresh heap view.toNat ∧ Fresh heap base.toNat ∧
      view ≠ 0 := by
  have goes : ¬(lenExceeds new.str new.cap ∨ new.kmallocView = false) := by
    rw [lenExceeds_iff small, viewGiven]
    simp only [Bool.true_eq_false, or_false]
    omega
  have length : (toU32 (toS32 new.str.strlen)).toNat = new.str.strlen := by
    unfold toU32 toS32
    omega
  rw [stringNewCapAt, if_neg goes, length] at granted ⊢
  obtain ⟨viewGranted, roomy⟩ := grant_run fun refused => granted (bind_error refused)
  obtain ⟨first, made, allocated, stored, begun⟩ := begun_run roomy new.str.strlen
  rw [bind_run viewGranted, bind_run allocated, bind_run stored, given] at granted ⊢
  simp only at granted ⊢
  obtain ⟨bufferGranted, roomyMade⟩ := grant_run fun refused => granted (bind_error refused)
  let left : ByteHeap := { made with mem := leaveIn made.mem base.toNat new.cap.toNat garbage }
  have remains : leave base new.cap.toNat garbage made = .ok ((), left) := rfl
  have reached := le_reach new.cap.toNat
  have apart : view.toNat + 24 ≤ base.toNat ∨ base.toNat + new.cap.toNat ≤ view.toNat := by
    have gap : base.toNat + reach new.cap.toNat ≤ view.toNat ∨ view.toNat + 24 ≤ base.toNat :=
      roomyMade.2.2.2 ⟨view.toNat, sizeofPointer⟩ (by rw [begun.blocks]; exact List.mem_cons_self)
    omega
  have offLeft (addr : Nat) (off : ¬(base.toNat ≤ addr ∧ addr < base.toNat + new.cap.toNat)) :
      left.mem addr = made.mem addr := if_neg off
  have fields : ∃ before cap, ViewFields left.mem view.toNat before new.str.strlen cap := by
    obtain ⟨before, cap, fields⟩ := begun.fields
    exact ⟨before, cap, fields.congr fun addr low high => offLeft addr (by omega)⟩
  have viewMapped : heap.Mapped view.toNat sizeofView := roomy.2.2.1
  obtain ⟨after, filled, blocks, objects, mapped, fieldsAfter, bytes, outside⟩ :=
    @stringFill_run view base left new.str new.cap garbage fields small room roomyMade.vacant
      (by rw [ByteHeap.Mapped, begun.mapped]; exact viewMapped) apart
      fun index bound => by
        show leaveIn made.mem base.toNat new.cap.toNat garbage (base.toNat + index) = _
        rw [leaveIn, if_pos ⟨by omega, by omega⟩, Nat.add_sub_cancel_left]
  have everyBlock : after.blocks =
      ⟨base.toNat, new.cap.toNat⟩ :: ⟨view.toNat, sizeofPointer⟩ :: heap.blocks :=
    blocks.trans (congrArg (_ :: ·) begun.blocks)
  have everyObject : after.objects = ⟨view.toNat, .stringView, sizeofPointer⟩ :: heap.objects :=
    objects.trans begun.objects
  have everyMapped : after.mapped = heap.mapped := mapped.trans begun.mapped
  have spacedMade : Spaced made.blocks := by
    rw [begun.blocks]
    exact spaced.cons roomy
  have freshBuffer : Fresh made base.toNat := roomyMade.fresh
  rw [Fresh, begun.blocks] at freshBuffer
  refine ⟨after, ?_, ?_, ?_, ⟨everyMapped, ?_, ?_, ?_⟩, roomy.fresh,
    fun block member => freshBuffer block (List.mem_cons_of_mem _ member), ?_⟩
  · rw [bind_run bufferGranted, bind_run remains, bind_run filled]
    rfl
  · refine ⟨?_, ?_, ?_, ?_, ?_, ?_, ?_, fieldsAfter, (made_holds garbage small room).ofBytes rfl bytes⟩
    · rw [ByteHeap.object, everyObject, List.find?_cons_of_pos (by simp)]
    · rw [everyBlock]
      exact List.mem_cons_of_mem _ List.mem_cons_self
    · rw [everyBlock]
      exact List.mem_cons_self
    · rintro rfl
      exact freshBuffer _ List.mem_cons_self rfl
    · rintro rfl
      exact roomyMade.1 rfl
    · rw [ByteHeap.Mapped, everyMapped]
      exact viewMapped
    · rw [ByteHeap.Mapped, mapped]
      exact roomyMade.vacant.2.2.1
  · rw [blocks]
    exact spacedMade.cons roomyMade
  · intro other member _
    rw [everyBlock]
    exact List.mem_cons_of_mem _ (List.mem_cons_of_mem _ member)
  · intro other member _ addr low high
    have fromView : Block.Apart ⟨view.toNat, sizeofPointer⟩ other := roomy.2.2.2 other member
    have fromBuffer : Block.Apart ⟨base.toNat, new.cap.toNat⟩ other :=
      roomyMade.2.2.2 other (by rw [begun.blocks]; exact List.mem_cons_of_mem _ member)
    simp only [Block.Apart, reach_view] at fromView fromBuffer
    rw [outside addr (by omega) (by omega), offLeft addr (by omega), begun.outside addr (by omega)]
  · intro addr notMine
    have different : view.toNat ≠ addr := fun same => notMine (.inl same.symm)
    rw [ByteHeap.object, everyObject, List.find?_cons_of_neg (by simpa using different), ByteHeap.object]
  · rintro rfl
    exact roomy.1 rfl

theorem stringNewCapAt_null {new : NewCap} (small : new.str.strlen ≤ 4096)
    (fails : new.cap.toNat < new.str.strlen ∨ new.kmallocView = false ∨ new.kmallocStr = none)
    (granted : stringNewCapAt new view base heap ≠ .error .badPlacement) :
    ∃ after, stringNewCapAt new view base heap = .ok (0, after) ∧ after.blocks = heap.blocks ∧
      Frame (Fresh heap) heap after := by
  by_cases refused : lenExceeds new.str new.cap ∨ new.kmallocView = false
  · rw [stringNewCapAt, if_pos refused]
    exact ⟨heap, rfl, rfl, Frame.refl _ heap⟩
  · have noBuffer : new.kmallocStr = none := by
      obtain ⟨fits, viewGiven⟩ := not_or.mp refused
      rw [lenExceeds_iff small] at fits
      exact (fails.resolve_left fits).resolve_left viewGiven
    have length : (toU32 (toS32 new.str.strlen)).toNat = new.str.strlen := by
      unfold toU32 toS32
      omega
    rw [stringNewCapAt, if_neg refused, length] at granted ⊢
    obtain ⟨viewGranted, roomy⟩ := grant_run fun refused => granted (bind_error refused)
    obtain ⟨first, made, allocated, stored, begun⟩ := begun_run roomy new.str.strlen
    obtain ⟨fourth, fifth, after, stored₄, stored₅, released, blocks, frame⟩ :=
      @abandon_run heap view new.cap.toNat made _ begun roomy
    refine ⟨after, ?_, blocks, frame.mono ?_⟩
    · rw [bind_run viewGranted, bind_run allocated, bind_run stored, noBuffer]
      simp only
      rw [bind_run stored₄, bind_run stored₅, bind_run released]
      rfl
    · rintro addr rfl
      exact roomy.fresh

theorem stringFree_run (stored : StoredAt heap view base cap text) (spaced : Spaced heap.blocks) :
    ∃ after, stringFree view heap = .ok ((), after) ∧ Spaced after.blocks ∧
      Frame (OwnedBy view base) heap after := by
  let freed : ByteHeap := { heap with blocks := heap.blocks.erase ⟨base.toNat, cap⟩ }
  have mapped : freed.Mapped view.toNat sizeofView := stored.viewMapped
  obtain ⟨cleared, ran, mem, places⟩ := storeView_run mapped 0 8 0 (by decide)
  have object : cleared.object view.toNat = some ⟨view.toNat, .stringView, sizeofPointer⟩ := by
    rw [ByteHeap.object, places.objects]
    exact stored.object
  have blocks : cleared.blocks = heap.blocks.erase ⟨base.toNat, cap⟩ := places.blocks
  refine ⟨{ cleared with
    blocks := cleared.blocks.erase ⟨view.toNat, sizeofPointer⟩
    objects := cleared.objects.erase ⟨view.toNat, .stringView, sizeofPointer⟩ }, ?_, ?_, ?_⟩
  · rw [stringFree, bind_run (stored.fields.load_str stored.viewMapped), if_neg stored.notNull,
      bind_run (kfree_run spaced stored.block), bind_run ran, release, object]
  · rw [blocks]
    exact (spaced.erase _).erase _
  · refine ⟨places.mapped, ?_, ?_, ?_⟩
    · intro other member notMine
      rw [blocks]
      exact mem_erase_of_base (mem_erase_of_base member fun same => notMine (.inr same))
        fun same => notMine (.inl same)
    · intro other member notMine addr low high
      have apart := spaced.apart member stored.viewBlock fun same => notMine (.inl same)
      simp only [Block.Apart, reach_view] at apart
      rw [mem, blit_elsewhere (by rw [littleEndian_length]; omega)]
    · intro addr notMine
      rw [ByteHeap.object, ByteHeap.object, find?_erase_other fun same => notMine (.inl same.symm),
        places.objects]

end

end LearnK.Strings
