import LearnK.Strings.Places

/-! Each call on strings in memory does to the text of its string what it should, and touches nothing
that belongs to another one. -/

namespace LearnK.Strings

open ByteMemory CInt CString FaultM DataType
open Container (Addr Block ByteHeap ByteM load loadPointer store storeField storeBuffer allocate
  allocateStruct release sizeofPointer SamePlaces storeField_run)

section Blit

variable {α : Type*} {memory data : Nat → α}

theorem blit_block {base index : Nat} (start : Nat) (bytes : List α)
    (same : memory (base + index) = data index) :
    blit memory (base + start) bytes (base + index) = blit data start bytes index := by
  have offset : base + index - (base + start) = index - start := by omega
  unfold blit
  rw [same, offset]
  refine if_congr ?_ rfl rfl
  omega

theorem blit_elsewhere {start index : Nat} {bytes : List α}
    (apart : index < start ∨ start + bytes.length ≤ index) :
    blit memory start bytes index = memory index := by
  rcases apart with below | above
  · exact blit_below _ _ below
  · exact blit_above _ _ above

end Blit

section

variable {heap : ByteHeap} {view base : Addr} {cap : Nat} {text : List UInt8}

theorem nulAt_run {length index fuel : Nat} (mapped : heap.Mapped base.toNat (length + 1))
    (terminated : Terminated (fun index => heap.mem (base.toNat + index)) length)
    (reached : index ≤ length) (enough : length < index + fuel) :
    nulAt base fuel index heap = .ok (length, heap) := by
  induction fuel generalizing index with
  | zero => omega
  | succ fuel ih =>
      have loaded : load (base.toNat + index) 1 heap =
          .ok ((heap.mem (base.toNat + index)).toNat, heap) :=
        load_byte (mapped.within (by omega))
      rw [nulAt, bind_run loaded]
      by_cases last : index = length
      · have nul : (heap.mem (base.toNat + index)).toNat = 0 := by
          rw [last]
          exact congrArg UInt8.toNat terminated.nul
        rw [if_pos nul, last]
        rfl
      · have char : heap.mem (base.toNat + index) ≠ 0 := terminated.noNul index (by omega)
        have more : (heap.mem (base.toNat + index)).toNat ≠ 0 := fun zero =>
          char (UInt8.toNat_inj.mp zero)
        rw [if_neg more]
        exact ih (by omega) (by omega)

theorem joined_holds (stored : StoredAt heap view base cap text) (str : Text)
    (total : text.length + str.strlen ≤ 4096) (room : text.length + str.strlen < cap) :
    (StringView.mk (some ⟨blit (blit (fun index => heap.mem (base.toNat + index)) text.length
      (str.bytes ++ [0])) (text.length + str.strlen) [0], cap⟩) (text.length + str.strlen) cap
        [⟨text.length, str.strlen + 1, cap⟩, ⟨text.length + str.strlen, 1, cap⟩]).HoldsText
      (text ++ str.bytes) := by
  obtain ⟨next, joined, holds⟩ := stringJoin_holdsText stored.holds (fun _ => 0) str total
  have scanned : nulIndex (fun index => heap.mem (base.toNat + index)) 4097 0 = some (0 + text.length) :=
    nulIndex_eq (by simpa using stored.terminated.noNul) (by simpa using stored.terminated.nul)
      (by have small := stored.small; omega)
  have request : (toU32 ((text.length : Int) + toU32 str.strlen)).toNat = text.length + str.strlen :=
    request_eq (by omega)
  have roomy : (toU64 ((cap : Int) - text.length)).toNat = cap - text.length :=
    room_eq stored.holds.wellFormed
  have copied : strncatBytes str (cap - text.length) = str.bytes ++ [0] := strncatBytes_all (by omega)
  rw [stringJoin, stringView] at joined
  simp only [request, if_neg (Nat.not_le.mpr room), Except.bind, joinAppend, scanned, Nat.zero_add, roomy,
    copied, Except.ok.injEq, List.nil_append, List.length_append, List.length_singleton] at joined
  rwa [← joined] at holds

def OwnedBy (view base : Addr) (addr : Nat) : Prop := addr = view.toNat ∨ addr = base.toNat

theorem StoredAt.frame_of_stores {after : ByteHeap} (stored : StoredAt heap view base cap text)
    (spaced : Spaced heap.blocks) (places : SamePlaces heap after)
    (outside : ∀ addr, ¬(view.toNat ≤ addr ∧ addr < view.toNat + 24) →
      ¬(base.toNat ≤ addr ∧ addr < base.toNat + cap) → after.mem addr = heap.mem addr) :
    Frame (OwnedBy view base) heap after where
  mapped := places.mapped
  blocks other inHeap _ := places.blocks ▸ inHeap
  bytes other inHeap notMine addr low high := by
    have fromView := spaced.apart inHeap stored.viewBlock fun same => notMine (.inl same)
    have fromBuffer := spaced.apart inHeap stored.block fun same => notMine (.inr same)
    have reached := le_reach cap
    simp only [Block.Apart, reach_view] at fromView fromBuffer
    exact outside addr (by omega) (by omega)
  objects addr _ := by rw [ByteHeap.object, places.objects, ByteHeap.object]

theorem joinAppendAt_run (stored : StoredAt heap view base cap text) (spaced : Spaced heap.blocks)
    (str : Text) (total : text.length + str.strlen ≤ 4096) (room : text.length + str.strlen < cap) :
    ∃ after, joinAppendAt 4097 view str heap = .ok ((), after) ∧
      StoredAt after view base cap (text ++ str.bytes) ∧ SamePlaces heap after ∧
      Frame (OwnedBy view base) heap after := by
  have apart := stored.viewApart spaced
  have width := stored.width
  have request : (toU32 ((text.length : Int) + toU32 str.strlen)).toNat = text.length + str.strlen :=
    request_eq (by omega)
  have roomy : (toU64 ((cap : Int) - text.length)).toNat = cap - text.length :=
    room_eq stored.holds.wellFormed
  have copied : strncatBytes str (cap - text.length) = str.bytes ++ [0] := strncatBytes_all (by omega)
  have size : (str.bytes ++ [0]).length = str.strlen + 1 := List.length_append
  have scanned : nulAt base 4097 0 heap = .ok (text.length, heap) :=
    nulAt_run (fun index bound => stored.mapped index (by omega)) stored.terminated (Nat.zero_le _)
      (by have small := stored.small; omega)
  -- strncat, then the new length, then the NUL behind it
  obtain ⟨first, stored₁, mem₁, places₁⟩ :=
    storeBuffer_run view.toNat (str.bytes ++ [0]) stored.mapped
      (show text.length + (str.bytes ++ [0]).length ≤ cap by rw [size]; omega)
  have fields₁ : ViewFields first.mem view.toNat base.toNat text.length cap := by
    rw [mem₁]
    exact stored.fields.blit_apart (by rw [size]; omega)
  obtain ⟨second, stored₂, mem₂, places₂⟩ :=
    storeView_run (places₁.mappedAt stored.viewMapped) 8 4 (text.length + str.strlen) (by decide)
  have fields₂ : ViewFields second.mem view.toNat base.toNat (text.length + str.strlen) cap := by
    rw [mem₂]
    exact fields₁.blit_len _
  have places := places₁.trans places₂
  obtain ⟨third, stored₃, mem₃, places₃⟩ :=
    storeBuffer_run view.toNat [0] (places.mappedAt stored.mapped) (Nat.succ_le_of_lt room)
  have fields₃ : ViewFields third.mem view.toNat base.toNat (text.length + str.strlen) cap := by
    rw [mem₃]
    exact fields₂.blit_apart (by simp only [List.length_singleton]; omega)
  have everywhere := places.trans places₃
  have bytes (index : Nat) (bound : index < cap) : third.mem (base.toNat + index) =
      blit (blit (fun index => heap.mem (base.toNat + index)) text.length (str.bytes ++ [0]))
        (text.length + str.strlen) [0] index := by
    rw [mem₃]
    refine blit_block _ _ ?_
    rw [mem₂, blit_elsewhere (by rw [littleEndian_length]; omega), mem₁]
    exact blit_block _ _ rfl
  refine ⟨third, ?_, ?_, everywhere, stored.frame_of_stores spaced everywhere
    fun addr offView offBuffer => ?_⟩
  · rw [joinAppendAt, bind_run (stored.fields.load_str stored.viewMapped),
      bind_run (stored.fields.load_cap stored.viewMapped width),
      bind_run (stored.fields.load_len stored.viewMapped (by omega)), bind_run scanned, roomy, copied,
      bind_run stored₁, bind_run (fields₁.load_len (places₁.mappedAt stored.viewMapped) (by omega)),
      request, bind_run stored₂, bind_run (fields₂.load_str (places.mappedAt stored.viewMapped)),
      bind_run (fields₂.load_len (places.mappedAt stored.viewMapped) (by omega))]
    exact stored₃
  · have length : (text ++ str.bytes).length = text.length + str.strlen := List.length_append
    refine ⟨?_, everywhere.blocks ▸ stored.viewBlock, everywhere.blocks ▸ stored.block, stored.different,
      stored.notNull, everywhere.mappedAt stored.viewMapped, everywhere.mappedAt stored.mapped,
      length ▸ fields₃, ?_⟩
    · rw [ByteHeap.object, everywhere.objects]
      exact stored.object
    · rw [length]
      exact (joined_holds stored str total room).ofBytes rfl bytes
  · rw [mem₃, blit_elsewhere (by simp only [List.length_singleton]; omega), mem₂,
      blit_elsewhere (by rw [littleEndian_length]; omega), mem₁, blit_elsewhere (by rw [size]; omega)]

theorem growLoopAt_run {request fuel str len grown : Nat} {needRealloc : Bool}
    (mapped : heap.Mapped view.toNat sizeofView) (fields : ViewFields heap.mem view.toNat str len cap)
    (width : cap < 18446744073709551616) (looped : growLoop request fuel cap = some grown) :
    ∃ after, growLoopAt view request fuel needRealloc heap =
        .ok (needRealloc || decide (request ≥ cap), after) ∧
      ViewFields after.mem view.toNat str len grown ∧ SamePlaces heap after ∧
      ∀ addr, ¬(view.toNat ≤ addr ∧ addr < view.toNat + 24) → after.mem addr = heap.mem addr := by
  induction fuel generalizing heap cap needRealloc with
  | zero => simp [growLoop] at looped
  | succ fuel ih =>
      rw [growLoop] at looped
      rw [growLoopAt, bind_run (fields.load_cap mapped width)]
      by_cases more : request ≥ cap
      · rw [if_pos more] at looped ⊢
        obtain ⟨middle, stored, mem, places⟩ := storeView_run mapped 16 8 (growStep cap) (by decide)
        have stepped : ViewFields middle.mem view.toNat str len (growStep cap) := by
          rw [mem]
          exact fields.blit_cap _
        obtain ⟨after, ran, final, later, outside⟩ :=
          @ih middle (growStep cap) true (places.mappedAt mapped) stepped (growStep_width width) looped
        refine ⟨after, ?_, final, places.trans later, fun addr off => ?_⟩
        · rw [bind_run stored, ran, decide_eq_true more, Bool.or_true, Bool.true_or]
        · rw [outside addr off, mem, blit_elsewhere (by rw [littleEndian_length]; omega)]
      · rw [if_neg more] at looped ⊢
        obtain rfl := Option.some.inj looped
        refine ⟨heap, ?_, fields, ⟨rfl, rfl, rfl⟩, fun _ _ => rfl⟩
        rw [decide_eq_false more, Bool.or_false]
        rfl

theorem krealloc_run {old new : Addr} {size : Nat} {garbage : Nat → UInt8} (spaced : Spaced heap.blocks)
    (block : ⟨old.toNat, cap⟩ ∈ heap.blocks)
    (granted : krealloc old size new garbage heap ≠ .error .badPlacement) :
    ∃ after, krealloc old size new garbage heap = .ok ((), after) ∧
      after.blocks = ⟨new.toNat, size⟩ :: heap.blocks.erase ⟨old.toNat, cap⟩ ∧
      after.mem = leaveIn heap.mem new.toNat size (fun index =>
        if index < cap then heap.mem (old.toNat + index) else garbage index) ∧
      after.mapped = heap.mapped ∧ after.objects = heap.objects ∧ Spaced after.blocks ∧
      (new = old ∨ Fresh heap new.toNat) ∧ new ≠ 0 ∧
      heap.Mapped new.toNat (reach size) := by
  have found := spaced.find block
  have notNull {room : ByteHeap} (roomy : Roomy room new.toNat size) : new ≠ 0 := by
    rintro rfl
    exact roomy.1 rfl
  rw [krealloc, found] at granted ⊢
  simp only at granted ⊢
  by_cases roomy : Roomy { heap with
      blocks := if new = old then heap.blocks.erase ⟨old.toNat, cap⟩ else heap.blocks } new.toNat size
  · rw [if_pos roomy]
    refine ⟨_, rfl, rfl, rfl, rfl, rfl, ?_, ?_, notNull roomy, roomy.2.2.1⟩
    · refine List.pairwise_cons.mpr ⟨fun other member => roomy.2.2.2 other ?_, spaced.erase _⟩
      by_cases same : new = old
      · rwa [if_pos same]
      · rw [if_neg same]
        exact List.mem_of_mem_erase member
    · by_cases same : new = old
      · exact .inl same
      · refine .inr fun other member taken => ?_
        have apart : Block.Apart ⟨new.toNat, size⟩ other := roomy.2.2.2 other (by rwa [if_neg same])
        exact apart.base_ne taken.symm
  · rw [if_neg roomy] at granted
    exact absurd rfl granted

theorem grown_holds {request grown : Nat} (stored : StoredAt heap view base cap text)
    (garbage : Nat → UInt8) (needed : request ≥ cap) (larger : text.length ≤ request)
    (looped : growLoop request 4097 cap = some grown) :
    (StringView.mk (some ⟨fun index => if index < min cap grown then heap.mem (base.toNat + index)
      else garbage index, grown⟩) text.length grown []).HoldsText text ∧ request < grown := by
  have grew : stringGrowup 4097 (some garbage) (stringView heap base.toNat text.length cap cap) request =
      .ok ⟨some ⟨fun index => if index < min cap grown then heap.mem (base.toNat + index)
        else garbage index, grown⟩, text.length, grown, []⟩ := by
    rw [stringGrowup, stringView]
    simp only [looped, needed, if_true, Option.map_some]
  obtain ⟨wellFormed, -, above, content⟩ :=
    stringGrowup_wellFormed stored.holds.wellFormed larger needed grew
  exact ⟨⟨wellFormed, stored.small, content.trans stored.holds.content⟩, above⟩

theorem stringGrowupAt_run {request grown : Nat} {new : Addr} {garbage : Nat → UInt8}
    (stored : StoredAt heap view base cap text) (spaced : Spaced heap.blocks) (needed : request ≥ cap)
    (larger : text.length ≤ request) (looped : growLoop request 4097 cap = some grown)
    (granted : stringGrowupAt 4097 (some garbage) new view request heap ≠ .error .badPlacement) :
    ∃ after, stringGrowupAt 4097 (some garbage) new view request heap = .ok ((), after) ∧
      StoredAt after view new grown text ∧ Spaced after.blocks ∧
      Frame (fun addr => OwnedBy view base addr ∨ addr = new.toNat) heap after ∧
      (new = base ∨ Fresh heap new.toNat) := by
  have apart := stored.viewApart spaced
  have width := growLoop_width stored.width looped
  obtain ⟨holds, above⟩ := grown_holds stored garbage needed larger looped
  obtain ⟨first, ran₁, fields₁, places₁, outside₁⟩ :=
    @growLoopAt_run heap view cap request 4097 _ _ grown false stored.viewMapped stored.fields
      stored.width looped
  rw [decide_eq_true needed, Bool.or_true] at ran₁
  have viewMapped₁ := places₁.mappedAt stored.viewMapped
  have start : stringGrowupAt 4097 (some garbage) new view request heap =
      (krealloc base grown new garbage >>= fun _ =>
        storeField view.toNat 0 (littleEndian 8 new.toNat)) first := by
    rw [stringGrowupAt, bind_run ran₁, if_pos rfl, bind_run (fields₁.load_str viewMapped₁),
      bind_run (fields₁.load_cap viewMapped₁ width)]
  have spaced₁ : Spaced first.blocks := places₁.blocks ▸ spaced
  obtain ⟨second, ran₂, blocks₂, mem₂, mapped₂, objects₂, spaced₂, fresh, notNull, room⟩ :=
    krealloc_run spaced₁ (places₁.blocks ▸ stored.block) fun refused =>
      granted (start.trans (bind_error refused))
  rw [Fresh, places₁.blocks] at fresh
  rw [places₁.blocks] at blocks₂
  have viewBlock₂ : (⟨view.toNat, sizeofPointer⟩ : Block) ∈ second.blocks := by
    rw [blocks₂]
    refine List.mem_cons_of_mem _ (mem_erase_of_base stored.viewBlock fun same => ?_)
    exact stored.different (UInt64.toNat_inj.mp same)
  have newBlock₂ : (⟨new.toNat, grown⟩ : Block) ∈ second.blocks := by
    rw [blocks₂]
    exact List.mem_cons_self
  have different : view ≠ new := by
    rintro rfl
    rcases fresh with same | absent
    · exact stored.different same
    · exact absent _ stored.viewBlock rfl
  have newApart : view.toNat + 24 ≤ new.toNat ∨ new.toNat + grown ≤ view.toNat := by
    have gap := spaced₂.apart viewBlock₂ newBlock₂ fun same => different (UInt64.toNat_inj.mp same)
    have reached := le_reach grown
    simp only [Block.Apart, reach_view] at gap
    omega
  have off₂ (addr : Nat) (off : ¬(new.toNat ≤ addr ∧ addr < new.toNat + grown)) :
      second.mem addr = first.mem addr := by
    rw [mem₂]
    exact if_neg off
  have viewMapped₂ : second.Mapped view.toNat sizeofView := by
    rw [ByteHeap.Mapped, mapped₂]
    exact viewMapped₁
  obtain ⟨third, ran₃, mem₃, places₃⟩ := storeView_run viewMapped₂ 0 8 new.toNat (by decide)
  have mapped₃ : third.mapped = heap.mapped := (places₃.mapped.trans mapped₂).trans places₁.mapped
  have objects₃ : third.objects = heap.objects := (places₃.objects.trans objects₂).trans places₁.objects
  have fields₃ : ViewFields third.mem view.toNat new.toNat text.length grown := by
    rw [mem₃]
    exact (fields₁.congr fun addr low high => off₂ addr (by omega)).blit_str _
  have bytes (index : Nat) (bound : index < grown) : third.mem (new.toNat + index) =
      if index < min cap grown then heap.mem (base.toNat + index) else garbage index := by
    rw [mem₃, blit_elsewhere (by rw [littleEndian_length]; omega), mem₂, leaveIn,
      if_pos ⟨by omega, by omega⟩, Nat.add_sub_cancel_left]
    by_cases kept : index < cap
    · rw [if_pos kept, if_pos (by omega), outside₁ _ (by omega)]
    · rw [if_neg kept, if_neg (by omega)]
  refine ⟨third, ?_, ?_, places₃.blocks ▸ spaced₂, ⟨mapped₃, ?_, ?_, ?_⟩, fresh⟩
  · rw [start, bind_run ran₂]
    exact ran₃
  · refine ⟨?_, places₃.blocks ▸ viewBlock₂, places₃.blocks ▸ newBlock₂, different, notNull,
      ?_, ?_, fields₃, holds.ofBytes rfl bytes⟩
    · rw [ByteHeap.object, objects₃]
      exact stored.object
    · rw [ByteHeap.Mapped, mapped₃]
      exact stored.viewMapped
    · intro index bound
      rw [mapped₃, ← places₁.mapped]
      exact room index (Nat.lt_of_lt_of_le bound (le_reach grown))
  · intro other member notMine
    rw [places₃.blocks, blocks₂]
    exact List.mem_cons_of_mem _ (mem_erase_of_base member fun same => notMine (.inl (.inr same)))
  · intro other member notMine addr low high
    have inSecond : other ∈ second.blocks := by
      rw [blocks₂]
      exact List.mem_cons_of_mem _ (mem_erase_of_base member fun same => notMine (.inl (.inr same)))
    have fromView := spaced₂.apart inSecond viewBlock₂ fun same => notMine (.inl (.inl same))
    have fromNew := spaced₂.apart inSecond newBlock₂ fun same => notMine (.inr same)
    have reached := le_reach grown
    simp only [Block.Apart, reach_view] at fromView fromNew
    rw [mem₃, blit_elsewhere (by rw [littleEndian_length]; omega), off₂ addr (by omega),
      outside₁ addr (by omega)]
  · intro addr _
    rw [ByteHeap.object, objects₃, ByteHeap.object]

theorem stringJoinAt_run {joined : Joined} {new : Addr} {garbage : Nat → UInt8}
    (stored : StoredAt heap view base cap text) (spaced : Spaced heap.blocks)
    (given : joined.krealloc = some garbage) (total : text.length + joined.str.strlen ≤ 4096)
    (granted : stringJoinAt 4097 joined new view heap ≠ .error .badPlacement) :
    ∃ after base' cap', stringJoinAt 4097 joined new view heap = .ok ((), after) ∧
      StoredAt after view base' cap' (text ++ joined.str.bytes) ∧ Spaced after.blocks ∧
      Frame (fun addr => OwnedBy view base addr ∨ addr = base'.toNat) heap after ∧
      (base' = base ∨ Fresh heap base'.toNat) := by
  have request : (toU32 ((text.length : Int) + toU32 joined.str.strlen)).toNat =
      text.length + joined.str.strlen := request_eq (by omega)
  have room := stored.room
  have start : stringJoinAt 4097 joined new view heap =
      (if text.length + joined.str.strlen ≥ cap then
        stringGrowupAt 4097 joined.krealloc new view (text.length + joined.str.strlen) >>= fun _ =>
          joinAppendAt 4097 view joined.str
      else joinAppendAt 4097 view joined.str) heap := by
    rw [stringJoinAt, bind_run (stored.fields.load_len stored.viewMapped (by omega)),
      bind_run (stored.fields.load_cap stored.viewMapped stored.width), request]
  by_cases needed : text.length + joined.str.strlen ≥ cap
  · rw [if_pos needed, given] at start
    obtain ⟨grown, looped, -⟩ := growLoop_ends (@below_growLimit _ cap total (by omega))
    obtain ⟨middle, grew, storedMiddle, spacedMiddle, frame, fresh⟩ :=
      stringGrowupAt_run stored spaced needed (Nat.le_add_right _ _) (growLoop_mono looped (by decide))
        fun refused => granted (start.trans (bind_error refused))
    obtain ⟨after, ran, storedAfter, places, later⟩ := joinAppendAt_run storedMiddle spacedMiddle
      joined.str total (growLoop_above looped)
    refine ⟨after, new, grown, ?_, storedAfter, places.blocks ▸ spacedMiddle, ?_, fresh⟩
    · rw [start, bind_run grew]
      exact ran
    · refine frame.trans (later.mono ?_)
      rintro addr (rfl | rfl)
      · exact .inl (.inl rfl)
      · exact .inr rfl
  · rw [if_neg needed] at start
    obtain ⟨after, ran, storedAfter, places, later⟩ := joinAppendAt_run stored spaced joined.str total
      (Nat.lt_of_not_ge needed)
    exact ⟨after, base, cap, start.trans ran, storedAfter, places.blocks ▸ spaced,
      later.mono fun addr => .inl, .inl rfl⟩

end

end LearnK.Strings
