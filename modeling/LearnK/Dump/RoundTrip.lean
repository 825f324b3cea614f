import LearnK.Dump.Core

/-! `marshal` and `unmarshal` undo each other. -/

namespace LearnK.Dump

open ByteMemory CInt CString

theorem Block.strlen_eq_some_iff {block : Block} {offset length : Nat} :
    block.strlen offset = some length ↔
      (∀ index < length, block.mem (offset + index) ≠ 0) ∧ block.mem (offset + length) = 0 ∧
        offset + length < block.size := by
  constructor
  · intro measured
    obtain ⟨nul, scanned, rfl⟩ := Option.map_eq_some_iff.mp measured
    obtain ⟨low, high, stop, before⟩ := nulIndex_first scanned
    have there : offset + (nul - offset) = nul := by omega
    rw [there]
    exact ⟨fun index bound => before _ (by omega) (by omega), stop, by omega⟩
  · rintro ⟨noNul, stop, inside⟩
    rw [Block.strlen, nulIndex_eq noNul stop (by omega)]
    simp

theorem slice_eq_terminated_iff {memory : Nat → UInt8} {offset : Nat} {bytes : List UInt8} :
    slice memory offset (bytes.length + 1) = bytes ++ [0] ↔
      slice memory offset bytes.length = bytes ∧ memory (offset + bytes.length) = 0 := by
  have last : slice memory (offset + bytes.length) 1 = [memory (offset + bytes.length)] := rfl
  rw [slice_append, last]
  constructor
  · intro same
    obtain ⟨front, back⟩ := List.append_inj same (slice_length _ _ _)
    exact ⟨front, List.head_eq_of_cons_eq back⟩
  · rintro ⟨front, back⟩
    rw [front, back]

theorem Block.string_eq_some_iff {block : Block} {offset : Nat} {bytes : List UInt8} :
    block.string offset = some bytes ↔
      slice block.mem offset (bytes.length + 1) = bytes ++ [0] ∧ (∀ byte ∈ bytes, byte ≠ 0) ∧
        offset + bytes.length < block.size := by
  rw [Block.string, Option.map_eq_some_iff, slice_eq_terminated_iff]
  constructor
  · rintro ⟨length, measured, rfl⟩
    obtain ⟨noNul, stop, inside⟩ := Block.strlen_eq_some_iff.mp measured
    rw [slice_length]
    refine ⟨⟨rfl, stop⟩, fun byte member => ?_, inside⟩
    obtain ⟨index, bound, rfl⟩ := List.mem_map.mp member
    exact noNul index (List.mem_range.mp bound)
  · rintro ⟨⟨same, stop⟩, noNul, inside⟩
    refine ⟨bytes.length, Block.strlen_eq_some_iff.mpr ⟨fun index bound => ?_, stop, inside⟩, same⟩
    have entry := slice_getElem? block.mem offset bytes.length index bound
    rw [same, List.getElem?_eq_getElem bound] at entry
    rw [← Option.some.inj entry]
    exact noNul _ (List.getElem_mem bound)

theorem Block.strlen_of_string {block : Block} {offset : Nat} {bytes : List UInt8}
    (held : block.string offset = some bytes) : block.strlen offset = some bytes.length := by
  obtain ⟨length, measured, same⟩ := Option.map_eq_some_iff.mp held
  rw [measured, ← same, slice_length]

theorem Block.string_of_nul {block : Block} {offset nul : Nat} (low : offset ≤ nul)
    (high : nul < block.size) (stop : block.mem nul = 0) :
    ∃ bytes, block.string offset = some bytes := by
  have reach : nul < offset + (block.size - offset) := by omega
  obtain ⟨found, scanned⟩ := nulIndex_found low reach stop
  exact ⟨_, by rw [Block.string, Block.strlen, scanned]; rfl⟩

theorem string_strcpy {fresh : Nat → UInt8} {bytes : List UInt8}
    (noNul : ∀ byte ∈ bytes, byte ≠ 0) :
    (Block.mk (bytes.length + 1) (blit fresh 0 (bytes ++ [0]))).string 0 = some bytes := by
  refine Block.string_eq_some_iff.mpr ⟨?_, noNul, by simp⟩
  have stored := slice_blit_same fresh 0 (bytes ++ [0])
  rwa [List.length_append] at stored

theorem idBytes_length (id : UInt32) : (idBytes id).length = sizeofId := by
  simp [idBytes]

theorem ofLittleEndian_idBytes (id : UInt32) :
    UInt32.ofNat (ofLittleEndian (idBytes id)) = id := by
  have bound : id.toNat < 256 ^ sizeofId := id.toNat_lt
  rw [idBytes, ofLittleEndian_littleEndian bound, UInt32.ofNat_toNat]

theorem idBytes_ofLittleEndian {bytes : List UInt8} (length : bytes.length = sizeofId) :
    idBytes (UInt32.ofNat (ofLittleEndian bytes)) = bytes := by
  have bound := ofLittleEndian_lt bytes
  have fits : ofLittleEndian bytes < UInt32.size := by
    rwa [length] at bound
  rw [idBytes, UInt32.toNat_ofNat_of_lt' fits, ← length, littleEndian_ofLittleEndian]

theorem idBytes_injective : Function.Injective idBytes := by
  intro first second same
  rw [← ofLittleEndian_idBytes first, same, ofLittleEndian_idBytes]

def encoding (id : UInt32) (bytes : List UInt8) : List UInt8 := idBytes id ++ (bytes ++ [0])

theorem encoding_length (id : UInt32) (bytes : List UInt8) :
    (encoding id bytes).length = sizeofId + bytes.length + 1 := by
  simp [encoding, idBytes_length, Nat.add_assoc]

theorem marshalSize_of_short {length : Nat} (short : length < 2 ^ 31 - 5) :
    marshalSize length = sizeofId + length + 1 := by
  unfold marshalSize toU64 toS32 sizeofId
  omega

/-- Up to there `len` is the size, or so negative that the block is larger than that. -/
theorem le_marshalSize {length : Nat} (bounded : length < 2 ^ 32 - 5) :
    sizeofId + length + 1 ≤ marshalSize length := by
  unfold marshalSize toU64 toS32 sizeofId
  omega

theorem marshalSize_wraps {length : Nat} (wraps : length = 4294967291) :
    marshalSize length < sizeofId := by
  have sum : sizeofId + length + 1 = 4294967296 := by
    rw [wraps]
    rfl
  have cast : ((sizeofId + length + 1 : Nat) : Int) = 4294967296 := by
    rw [sum]
    rfl
  unfold marshalSize
  push_cast at cast
  rw [cast]
  decide

theorem Block.store_inside {block : Block} {offset : Nat} {bytes : List UInt8}
    (inside : offset + bytes.length ≤ block.size) :
    block.store offset bytes = .ok { block with mem := blit block.mem offset bytes } := if_pos inside

theorem Block.store_outside {block : Block} {offset : Nat} {bytes : List UInt8}
    (outside : block.size < offset + bytes.length) :
    block.store offset bytes = .error .pastBlock := if_neg (Nat.not_le.mpr outside)

theorem marshal_eq {fresh : Nat → UInt8} {id : UInt32} {name : Block} {bytes : List UInt8}
    (named : name.string 0 = some bytes) (room : sizeofId + bytes.length + 1 ≤ marshalSize bytes.length) :
    marshal (some fresh) ⟨id, some name⟩ =
      .ok (some ⟨marshalSize bytes.length, blit fresh 0 (encoding id bytes)⟩) := by
  obtain ⟨copied, -, -⟩ := Block.string_eq_some_iff.mp named
  have joined := blit_append fresh 0 (idBytes id) (bytes ++ [0])
  rw [idBytes_length, Nat.zero_add] at joined
  have first : (Block.mk (marshalSize bytes.length) fresh).store 0 (idBytes id) =
      .ok ⟨marshalSize bytes.length, blit fresh 0 (idBytes id)⟩ := by
    refine Block.store_inside ?_
    rw [idBytes_length]
    simp only
    omega
  have second : (Block.mk (marshalSize bytes.length) (blit fresh 0 (idBytes id))).store sizeofId
      (bytes ++ [0]) = .ok ⟨marshalSize bytes.length, blit fresh 0 (encoding id bytes)⟩ := by
    rw [encoding, ← joined]
    refine Block.store_inside ?_
    rw [List.length_append, List.length_singleton]
    simp only
    omega
  simp only [marshal, Block.strlen_of_string named, copied, first]
  change (Block.store _ sizeofId _ >>= fun buf => pure (some buf)) = _
  rw [second]
  rfl

theorem marshal_overruns {fresh : Nat → UInt8} {id : UInt32} {name : Block} {bytes : List UInt8}
    (named : name.string 0 = some bytes) (small : marshalSize bytes.length < sizeofId) :
    marshal (some fresh) ⟨id, some name⟩ = .error .pastBlock := by
  have first : (Block.mk (marshalSize bytes.length) fresh).store 0 (idBytes id) = .error .pastBlock := by
    refine Block.store_outside ?_
    rw [idBytes_length]
    simp only
    omega
  simp only [marshal, Block.strlen_of_string named, first]
  rfl

theorem unmarshal_eq {fresh : Nat → UInt8} {buf : Block} {bytes : List UInt8}
    (held : buf.string sizeofId = some bytes) :
    unmarshal (some fresh) buf =
      .ok (0, ⟨UInt32.ofNat (ofLittleEndian (slice buf.mem 0 sizeofId)),
        some ⟨bytes.length + 1, blit fresh 0 (bytes ++ [0])⟩⟩) := by
  obtain ⟨copied, -, -⟩ := Block.string_eq_some_iff.mp held
  simp only [unmarshal, Block.strlen_of_string held, copied]

theorem encoding_fields {buf : Block} {id : UInt32} {bytes : List UInt8}
    (noNul : ∀ byte ∈ bytes, byte ≠ 0) (size : sizeofId + bytes.length < buf.size)
    (held : slice buf.mem 0 (sizeofId + (bytes.length + 1)) = encoding id bytes) :
    slice buf.mem 0 sizeofId = idBytes id ∧ buf.string sizeofId = some bytes := by
  rw [slice_append, Nat.zero_add] at held
  obtain ⟨front, back⟩ := List.append_inj held (by rw [slice_length, idBytes_length])
  exact ⟨front, Block.string_eq_some_iff.mpr ⟨back, noNul, size⟩⟩

theorem encoding_injective {first second : UInt32} {bytes others : List UInt8}
    (same : encoding first bytes = encoding second others) : first = second ∧ bytes = others := by
  obtain ⟨ids, names⟩ := List.append_inj same (by rw [idBytes_length, idBytes_length])
  exact ⟨idBytes_injective ids, List.append_inj_left' names rfl⟩

theorem marshal_then_unmarshal {id : UInt32} {name : Block} {bytes : List UInt8}
    (named : name.string 0 = some bytes) (short : bytes.length < 2 ^ 31 - 5)
    (fresh freshName : Nat → UInt8) :
    ∃ buf copy, marshal (some fresh) ⟨id, some name⟩ = .ok (some buf) ∧
      buf.size = sizeofId + bytes.length + 1 ∧ slice buf.mem 0 buf.size = encoding id bytes ∧
      (∀ index, buf.size ≤ index → buf.mem index = fresh index) ∧
      unmarshal (some freshName) buf = .ok (0, ⟨id, some copy⟩) ∧
      copy.string 0 = some bytes := by
  obtain ⟨-, noNul, -⟩ := Block.string_eq_some_iff.mp named
  have size := marshalSize_of_short short
  have written : slice (blit fresh 0 (encoding id bytes)) 0 (marshalSize bytes.length) =
      encoding id bytes := by
    rw [size, ← encoding_length id bytes]
    exact slice_blit_same fresh 0 (encoding id bytes)
  have inside : sizeofId + bytes.length < marshalSize bytes.length := by omega
  have starts : slice (blit fresh 0 (encoding id bytes)) 0 (sizeofId + (bytes.length + 1)) =
      encoding id bytes := by rwa [size, Nat.add_assoc] at written
  obtain ⟨front, held⟩ := @encoding_fields ⟨marshalSize bytes.length, _⟩ _ _ noNul inside starts
  have decoded := @unmarshal_eq freshName _ _ held
  rw [front, ofLittleEndian_idBytes] at decoded
  have copied := @string_strcpy freshName _ noNul
  refine ⟨_, _, marshal_eq named (Nat.le_of_eq size.symm), size, written,
    fun index above => ?_, decoded, copied⟩
  have beyond : 0 + (encoding id bytes).length ≤ index := by
    rw [Nat.zero_add, encoding_length, ← size]
    exact above
  exact blit_above fresh (encoding id bytes) beyond

theorem unmarshal_then_marshal {buf : Block} {bytes : List UInt8}
    (held : buf.string sizeofId = some bytes) (bounded : bytes.length < 2 ^ 32 - 5)
    (fresh freshName : Nat → UInt8) :
    ∃ params again, unmarshal (some freshName) buf = .ok (0, params) ∧
      marshal (some fresh) params = .ok (some again) ∧
      slice again.mem 0 (sizeofId + bytes.length + 1) = slice buf.mem 0 (sizeofId + bytes.length + 1) ∧
      (bytes.length < 2 ^ 31 - 5 → again.size = sizeofId + bytes.length + 1) := by
  obtain ⟨text, noNul, -⟩ := Block.string_eq_some_iff.mp held
  have copied := @string_strcpy freshName _ noNul
  refine ⟨_, _, unmarshal_eq held, marshal_eq copied (le_marshalSize bounded), ?_,
    fun short => marshalSize_of_short short⟩
  have whole : slice buf.mem 0 (sizeofId + bytes.length + 1) =
      encoding (UInt32.ofNat (ofLittleEndian (slice buf.mem 0 sizeofId))) bytes := by
    rw [encoding, idBytes_ofLittleEndian (slice_length _ _ _), ← text, Nat.add_assoc, slice_append,
      Nat.zero_add]
  rw [whole, ← encoding_length]
  exact slice_blit_same fresh 0 _

theorem marshal_injective {id id' : UInt32} {name name' : Block} {bytes bytes' : List UInt8}
    {fresh fresh' : Nat → UInt8} {buf buf' : Block}
    (named : name.string 0 = some bytes) (named' : name'.string 0 = some bytes')
    (short : bytes.length < 2 ^ 31 - 5) (short' : bytes'.length < 2 ^ 31 - 5)
    (marshalled : marshal (some fresh) ⟨id, some name⟩ = .ok (some buf))
    (marshalled' : marshal (some fresh') ⟨id', some name'⟩ = .ok (some buf'))
    (same : slice buf.mem 0 buf.size = slice buf'.mem 0 buf'.size) : id = id' ∧ bytes = bytes' := by
  obtain ⟨first, -, ran, -, written, -⟩ := marshal_then_unmarshal named short fresh fresh
  obtain ⟨second, -, ran', -, written', -⟩ := marshal_then_unmarshal named' short' fresh' fresh'
  obtain rfl := Option.some.inj (Except.ok.inj (marshalled.symm.trans ran))
  obtain rfl := Option.some.inj (Except.ok.inj (marshalled'.symm.trans ran'))
  exact encoding_injective (written.symm.trans (same.trans written'))

/-- Both directions of the round trip, and that different records have different encodings.
Every allocation succeeds, with a block that may hold anything. -/
theorem marshal_roundTrips :
    (∀ (id : UInt32) (name : Block) (bytes : List UInt8) (fresh freshName : Nat → UInt8),
      name.string 0 = some bytes → bytes.length < 2 ^ 31 - 5 →
      ∃ buf copy, marshal (some fresh) ⟨id, some name⟩ = .ok (some buf) ∧
        buf.size = sizeofId + bytes.length + 1 ∧
        slice buf.mem 0 buf.size = idBytes id ++ (bytes ++ [0]) ∧
        (∀ index, buf.size ≤ index → buf.mem index = fresh index) ∧
        unmarshal (some freshName) buf = .ok (0, ⟨id, some copy⟩) ∧
        copy.string 0 = some bytes) ∧
    (∀ (buf : Block) (nul : Nat) (fresh freshName : Nat → UInt8),
      sizeofId ≤ nul → nul < buf.size → buf.mem nul = 0 → nul < sizeofId + (2 ^ 32 - 5) →
      ∃ length params again, (∀ index < length, buf.mem (sizeofId + index) ≠ 0) ∧
        buf.mem (sizeofId + length) = 0 ∧
        unmarshal (some freshName) buf = .ok (0, params) ∧
        marshal (some fresh) params = .ok (some again) ∧
        slice again.mem 0 (sizeofId + length + 1) = slice buf.mem 0 (sizeofId + length + 1) ∧
        (length < 2 ^ 31 - 5 → again.size = sizeofId + length + 1)) ∧
    (∀ (id id' : UInt32) (name name' buf buf' : Block) (bytes bytes' : List UInt8)
      (fresh fresh' : Nat → UInt8), name.string 0 = some bytes → name'.string 0 = some bytes' →
      bytes.length < 2 ^ 31 - 5 → bytes'.length < 2 ^ 31 - 5 →
      marshal (some fresh) ⟨id, some name⟩ = .ok (some buf) →
      marshal (some fresh') ⟨id', some name'⟩ = .ok (some buf') →
      slice buf.mem 0 buf.size = slice buf'.mem 0 buf'.size → id = id' ∧ bytes = bytes') := by
  refine ⟨?_, ?_, ?_⟩
  · intro id name bytes fresh freshName named short
    exact marshal_then_unmarshal named short fresh freshName
  · intro buf nul fresh freshName low high stop bounded
    obtain ⟨bytes, held⟩ := Block.string_of_nul low high stop
    obtain ⟨noNul, first, -⟩ := Block.strlen_eq_some_iff.mp (Block.strlen_of_string held)
    have short : bytes.length < 2 ^ 32 - 5 := by
      by_contra long
      exact noNul (nul - sizeofId) (by omega) (by rwa [Nat.add_sub_cancel' low])
    obtain ⟨params, again, decoded, encoded, same, size⟩ :=
      unmarshal_then_marshal held short fresh freshName
    exact ⟨bytes.length, params, again, noNul, first, decoded, encoded, same, size⟩
  · intro id id' name name' buf buf' bytes bytes' fresh fresh' named named' short short' ran ran' same
    exact marshal_injective named named' short short' ran ran' same

def blockOf (bytes : List UInt8) : Block := ⟨bytes.length, fun index => bytes.getD index 0⟩

theorem marshal_roundTrips_textAb :
    (∃ buf copy, marshal (some fun _ => 7) ⟨256, some (blockOf [65, 66, 0])⟩ = .ok (some buf) ∧
      buf.size = 7 ∧ slice buf.mem 0 buf.size = [0, 1, 0, 0, 65, 66, 0] ∧
      (∀ index, buf.size ≤ index → buf.mem index = 7) ∧
      unmarshal (some fun _ => 9) buf = .ok (0, ⟨256, some copy⟩) ∧
      copy.string 0 = some [65, 66]) ∧
    ∃ length params again, (∀ index < length, (blockOf [0, 1, 0, 0, 65, 0, 66]).mem
        (sizeofId + index) ≠ 0) ∧
      (blockOf [0, 1, 0, 0, 65, 0, 66]).mem (sizeofId + length) = 0 ∧
      unmarshal (some fun _ => 9) (blockOf [0, 1, 0, 0, 65, 0, 66]) = .ok (0, params) ∧
      marshal (some fun _ => 7) params = .ok (some again) ∧
      slice again.mem 0 (sizeofId + length + 1) =
        slice (blockOf [0, 1, 0, 0, 65, 0, 66]).mem 0 (sizeofId + length + 1) ∧
      (length < 2 ^ 31 - 5 → again.size = sizeofId + length + 1) :=
  ⟨marshal_roundTrips.1 256 (blockOf [65, 66, 0]) [65, 66] (fun _ => 7) (fun _ => 9) (by decide)
      (by decide),
    marshal_roundTrips.2.1 (blockOf [0, 1, 0, 0, 65, 0, 66]) 5 (fun _ => 7) (fun _ => 9) (by decide)
      (by decide) (by decide) (by decide)⟩

/-- A buffer of 2^32 bytes whose last one is the first NUL. -/
def longBuf : Block := ⟨4294967296, fun index => if index = 4294967295 then 0 else 1⟩

theorem marshal_overruns_longBuf :
    (sizeofId ≤ 4294967295 ∧ 4294967295 < longBuf.size ∧ longBuf.mem 4294967295 = 0) ∧
      ∃ params, unmarshal (some fun _ => 0) longBuf = .ok (0, params) ∧
        marshal (some fun _ => 0) params = .error .pastBlock := by
  have measured : longBuf.strlen sizeofId = some (4294967291) := by
    refine Block.strlen_eq_some_iff.mpr ⟨fun index bound => ?_, by decide, by decide⟩
    have before : sizeofId + index ≠ 4294967295 := by
      unfold sizeofId
      omega
    change (if sizeofId + index = 4294967295 then (0 : UInt8) else 1) ≠ 0
    rw [if_neg before]
    decide
  obtain ⟨bytes, held⟩ : ∃ bytes, longBuf.string sizeofId = some bytes :=
    @Block.string_of_nul longBuf sizeofId 4294967295 (by decide) (by decide) (by decide)
  have length : bytes.length = 4294967291 :=
    Option.some.inj ((Block.strlen_of_string held).symm.trans measured)
  obtain ⟨-, noNul, -⟩ := Block.string_eq_some_iff.mp held
  refine ⟨⟨by decide, by decide, by decide⟩, _, unmarshal_eq held, ?_⟩
  exact marshal_overruns (string_strcpy noNul) (marshalSize_wraps length)

end LearnK.Dump
