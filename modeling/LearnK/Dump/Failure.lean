import LearnK.Dump.RoundTrip

/-! What a failed `unmarshal` leaves in the record that its caller passes. -/

namespace LearnK.Dump

open ByteMemory CInt CString

def idField (buf : Block) : UInt32 := UInt32.ofNat (ofLittleEndian (slice buf.mem 0 sizeofId))

def strcpyName (buf : Block) (length : Nat) (name : Block) : Block :=
  { name with mem := blit name.mem 0 (slice buf.mem sizeofId (length + 1)) }

def unmarshalInto (dumpAlloc : Option (Nat → UInt8)) (buf : Block) (params : Params) :
    Except Fault (Int × Params) :=
  let params := { params with id := idField buf }
  match buf.strlen sizeofId with
  | none => .error .pastBlock
  | some length =>
      let params := { params with name := dumpAlloc.map fun fresh => ⟨length + 1, fresh⟩ }
      match params.name with
      | none => .ok (-1, params)
      | some name => .ok (0, { params with name := some (strcpyName buf length name) })

/-- Every field is stored to on every path, so nothing of the old record can be seen. -/
theorem unmarshalInto_eq (dumpAlloc : Option (Nat → UInt8)) (buf : Block) (prior : Params) :
    unmarshalInto dumpAlloc buf prior = unmarshal dumpAlloc buf := by
  simp only [unmarshalInto, unmarshal]
  cases buf.strlen sizeofId with
  | none => rfl
  | some length => cases dumpAlloc <;> rfl

theorem unmarshalInto_failed {buf : Block} {bytes : List UInt8}
    (held : buf.string sizeofId = some bytes) (prior : Params) :
    unmarshalInto none buf prior = .ok (-1, ⟨idField buf, none⟩) := by
  simp only [unmarshalInto, Block.strlen_of_string held, Option.map_none]

theorem unmarshalInto_fails_iff {dumpAlloc : Option (Nat → UInt8)} {buf : Block}
    {bytes : List UInt8} (held : buf.string sizeofId = some bytes) {prior after : Params} :
    unmarshalInto dumpAlloc buf prior = .ok (-1, after) ↔
      dumpAlloc = none ∧ after = ⟨idField buf, none⟩ := by
  cases dumpAlloc with
  | none =>
      rw [unmarshalInto_failed held]
      simp [eq_comm]
  | some fresh =>
      rw [unmarshalInto_eq, unmarshal_eq held]
      simp

/-- A failed call leaves the record as it was exactly when it already held the buffer's `id` and no
name. -/
theorem unmarshal_failure_keeps_params_iff {buf : Block} {nul : Nat} (low : sizeofId ≤ nul)
    (high : nul < buf.size) (stop : buf.mem nul = 0) (prior : Params) :
    (∃ after, unmarshalInto none buf prior = .ok (-1, after)) ∧
    ((∀ dumpAlloc after, unmarshalInto dumpAlloc buf prior = .ok (-1, after) →
        after.id = prior.id ∧ after.name = prior.name) ↔
      prior.id = idField buf ∧ prior.name = none) := by
  obtain ⟨bytes, held⟩ := Block.string_of_nul low high stop
  have failed := unmarshalInto_failed held prior
  refine ⟨⟨_, failed⟩, ?_, ?_⟩
  · intro kept
    obtain ⟨sameId, sameName⟩ := kept none _ failed
    exact ⟨sameId.symm, sameName.symm⟩
  · rintro ⟨sameId, sameName⟩ dumpAlloc after returned
    obtain ⟨-, rfl⟩ := (unmarshalInto_fails_iff held).mp returned
    exact ⟨sameId.symm, sameName.symm⟩

theorem unmarshal_failure_keeps_params_blank :
    (∃ after, unmarshalInto none (blockOf [1, 0, 0, 0, 65, 0]) ⟨1, none⟩ = .ok (-1, after)) ∧
    ((∀ dumpAlloc after,
        unmarshalInto dumpAlloc (blockOf [1, 0, 0, 0, 65, 0]) ⟨1, none⟩ = .ok (-1, after) →
          after.id = 1 ∧ after.name = none) ↔
      1 = idField (blockOf [1, 0, 0, 0, 65, 0]) ∧ (none : Option Block) = none) :=
  @unmarshal_failure_keeps_params_iff (blockOf [1, 0, 0, 0, 65, 0]) 5 (by decide) (by decide)
    (by decide) ⟨1, none⟩

theorem unmarshal_failure_mixes_params :
    ¬ ∀ (buf : Block) (nul : Nat) (prior : Params) (dumpAlloc : Option (Nat → UInt8))
        (after : Params), sizeofId ≤ nul → nul < buf.size → buf.mem nul = 0 →
        unmarshalInto dumpAlloc buf prior = .ok (-1, after) →
        after.id = prior.id ∧ after.name = prior.name := by
  intro atomic
  have kept := atomic (blockOf [2, 0, 0, 0, 65, 0]) 5 ⟨1, some (blockOf [66, 0])⟩ none
    ⟨2, none⟩ (by decide) (by decide) (by decide) rfl
  exact absurd kept.1 (by decide)

end LearnK.Dump
