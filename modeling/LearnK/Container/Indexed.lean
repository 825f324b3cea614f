import Mathlib.Data.List.InsertIdx
import LearnK.Container.Count

/-! The indexed `LinkList` operations against the positions they are named after.  The scan hands
on the node behind the indexed one, so an insertion goes two places too far, a removal takes the
neighbour, and a read that is not stopped leaves the last value it passed. -/

namespace LearnK.Container

open FaultM StepMachine Function

def InRange (length : Nat) (index : Word) : Prop := 0 ≤ index.toInt ∧ index.toInt < length

instance (length : Nat) (index : Word) : Decidable (InRange length index) :=
  inferInstanceAs (Decidable (_ ∧ _))

theorem InRange.toNat_lt {length : Nat} {index : Word} (inside : InRange length index) :
    (index.toNat : Int) = index.toInt ∧ index.toNat < length := by
  obtain ⟨nonneg, below⟩ := inside
  have limit := index.isLt
  rw [BitVec.toInt_eq_toNat_cond] at nonneg below ⊢
  split at nonneg <;> omega

section Values

variable {α : Type*} {values : List α} {index : Nat} {value : α}

theorem cons_eq_concat_iff {items : List α} :
    value :: items = items ++ [value] ↔ ∀ item ∈ items, item = value := by
  induction items with
  | nil => simp
  | cons item rest ih =>
      rw [List.cons_append, List.cons.injEq, List.forall_mem_cons, ← ih]
      constructor
      · rintro ⟨rfl, same⟩
        exact ⟨rfl, same⟩
      · rintro ⟨rfl, same⟩
        exact ⟨rfl, same⟩

theorem insert_skipping_iff (more : index + 1 < values.length) :
    values.take (index + 2) ++ value :: values.drop (index + 2) =
        values.take index ++ value :: values.drop index ↔
      values[index] = value ∧ values[index + 1] = value := by
  have here : index < values.length := by omega
  rw [List.drop_eq_getElem_cons here, List.drop_eq_getElem_cons more,
    List.take_succ_eq_append_getElem more, List.take_succ_eq_append_getElem here, List.append_assoc,
    List.append_assoc, List.append_cancel_left_eq]
  simp only [List.cons_append, List.nil_append, List.cons.injEq]
  constructor
  · rintro ⟨first, second, -⟩
    exact ⟨first, second.trans first⟩
  · rintro ⟨first, second⟩
    exact ⟨first, second.trans first.symm, second.symm, trivial⟩

theorem insert_front_iff (last : index + 1 = values.length) :
    value :: values = values.take index ++ value :: values.drop index ↔
      ∀ item ∈ values.take index, item = value := by
  have here : index < values.length := by omega
  have split : values = values.take index ++ [values[index]] := by
    rw [← List.take_succ_eq_append_getElem here, List.take_of_length_le (by omega)]
  have rest : values.drop index = [values[index]] := by
    rw [List.drop_eq_getElem_cons here, List.drop_eq_nil_of_le (by omega)]
  have shape : value :: values = (value :: values.take index) ++ [values[index]] := by
    rw [List.cons_append, ← split]
  have target : values.take index ++ value :: [values[index]] =
      (values.take index ++ [value]) ++ [values[index]] := by simp
  rw [shape, rest, target, List.append_cancel_right_eq, cons_eq_concat_iff]

theorem erase_next_iff (more : index + 1 < values.length) :
    values.eraseIdx (index + 1) = values.eraseIdx index ↔ values[index + 1] = values[index] := by
  have here : index < values.length := by omega
  have rest : values.drop (index + 1) = values[index + 1] :: values.drop (index + 2) :=
    List.drop_eq_getElem_cons more
  rw [List.eraseIdx_eq_take_drop_succ, List.eraseIdx_eq_take_drop_succ, rest,
    List.take_succ_eq_append_getElem here, List.append_assoc, List.append_cancel_left_eq]
  simp only [List.cons_append, List.nil_append, List.cons.injEq, and_true]
  exact eq_comm

end Values

section Operations

variable {heap : Heap} {l : Addr} {nodes : List Addr}

theorem guards_iff_inRange (index : Word) (count : (heap.word l).toInt = nodes.length) :
    Accepts heap l index ∧ index.toNat < nodes.length ↔ InRange nodes.length index := by
  rw [accepts_iff count, InRange, count]

def InsertsAt (heap : Heap) (l : Addr) (nodes : List Addr) (index : Word) (node : Addr)
    (value : Word) : Prop :=
  let values := nodes.map heap.word
  ∃ after nodes', (linkListInsert l index node value : CellM Unit) heap = .ok ((), after) ∧
    Holds after l nodes' ∧
    (InRange nodes.length index → nodes'.map after.word =
      values.take index.toNat ++ value :: values.drop index.toNat) ∧
    (¬InRange nodes.length index → after = heap)

/-- The copies of the new value among which its misplacement does not show. -/
def InsertHidden (values : List Word) (index : Nat) (value : Word) : Prop :=
  if index + 1 < values.length then
    values[index]? = some value ∧ values[index + 1]? = some value
  else ∀ item ∈ values.take index, item = value

theorem Holds.inserted_values {after : Heap} {node : Addr} {value : Word} (point : Nat)
    (holds : Holds heap l nodes) (free : heap.Free node)
    (word : after.word = update heap.word node value) :
    (nodes.take point ++ node :: nodes.drop point).map after.word =
      (nodes.map heap.word).take point ++ value :: (nodes.map heap.word).drop point := by
  have others : nodes.map after.word = nodes.map heap.word := by
    refine holds.map_word_fresh free ?_
    intro addr _ notNode
    rw [word, update_of_ne notNode]
  have own : after.word node = value := by rw [word, update_self]
  rw [List.map_append, List.map_cons, List.map_take, List.map_drop, others, own]

theorem inserted_iff_hidden {values : List Word} {index : Nat} (value : Word)
    (inside : index < values.length) :
    values.take (insertPoint values.length index) ++
          value :: values.drop (insertPoint values.length index) =
        values.take index ++ value :: values.drop index ↔ InsertHidden values index value := by
  unfold insertPoint InsertHidden
  by_cases more : index + 1 < values.length
  · rw [if_pos more, if_pos more, insert_skipping_iff more, List.getElem?_eq_getElem inside,
      List.getElem?_eq_getElem more, Option.some.injEq, Option.some.injEq]
  · rw [if_neg more, if_neg more, ← insert_front_iff (by omega)]
    simp

/-- `link_list_insert` puts the value at its index exactly when the index is outside the list or
the neighbours it is exchanged with are copies of it. -/
theorem linkListInsert_exact_iff (heap : Heap) (l node : Addr) (nodes : List Addr)
    (index value : Word) (holds : Holds heap l nodes)
    (count : (heap.word l).toInt = nodes.length) (free : heap.Free node) :
    InsertsAt heap l nodes index node value ↔
      (InRange nodes.length index → InsertHidden (nodes.map heap.word) index.toNat value) := by
  have guards := guards_iff_inRange index count
  by_cases inside : InRange nodes.length index
  · obtain ⟨accepted, below⟩ := guards.mpr inside
    obtain ⟨after, ran, holdsAfter, word, -⟩ := holds.linkListInsert_run value accepted below free
    have length : (nodes.map heap.word).length = nodes.length := List.length_map _
    have values := holds.inserted_values (insertPoint nodes.length index.toNat) free word
    have hidden := inserted_iff_hidden value (by rwa [length] : index.toNat < _)
    rw [length] at hidden
    rw [forall_prop_of_true inside, ← hidden, ← values]
    constructor
    · rintro ⟨after', nodes', ran', holds', stored, -⟩
      obtain rfl : after = after' := (ok_unique ran ran').2
      rw [holdsAfter.ring.unique holds'.ring]
      exact stored inside
    · intro stored
      exact ⟨after, _, ran, holdsAfter, fun _ => stored, fun outside => absurd inside outside⟩
  · have refused := holds.linkListInsert_refused node value (mt guards.mp inside)
    refine iff_of_true ?_ (fun other => absurd other inside)
    exact ⟨heap, nodes, refused, holds, fun other => absurd other inside, fun _ => rfl⟩

def threeHeap (first second third : Word) : Heap where
  next addr := if addr = 4096 then 8192 else if addr = 8192 then 12288
    else if addr = 12288 then 16384 else 4096
  prev addr := if addr = 4096 then 16384 else if addr = 8192 then 4096
    else if addr = 12288 then 8192 else 12288
  word addr := if addr = 4096 then 3 else if addr = 8192 then first
    else if addr = 12288 then second else third
  live addr := addr = 4096 || addr = 8192 || addr = 12288 || addr = 16384

theorem threeHeap_holds (first second third : Word) :
    Holds (threeHeap first second third) 4096 [8192, 12288, 16384] := by
  refine ⟨⟨?_, by decide⟩, by simp [threeHeap], ⟨rfl, rfl, rfl⟩⟩
  simp [LinkedRing.Links, threeHeap]

theorem linkListInsert_exact_iff_copies :
    (threeHeap 4 4 3).Free 20480 ∧ InsertsAt (threeHeap 4 4 3) 4096 [8192, 12288, 16384] 0 20480 4 :=
  ⟨by decide, (linkListInsert_exact_iff (threeHeap 4 4 3) 4096 20480 [8192, 12288, 16384] 0 4
    (threeHeap_holds 4 4 3) (by decide) (by decide)).mpr fun _ => ⟨rfl, rfl⟩⟩

theorem linkListInsert_misplaces :
    (∃ after, (linkListInsert 4096 1 20480 4 : CellM Unit) (threeHeap 1 2 3) = .ok ((), after) ∧
      Holds after 4096 [8192, 12288, 16384, 20480] ∧
      [8192, 12288, 16384, 20480].map after.word = [1, 2, 3, 4]) ∧
    ¬InsertsAt (threeHeap 1 2 3) 4096 [8192, 12288, 16384] 1 20480 4 := by
  have free : (threeHeap 1 2 3).Free 20480 := by decide
  obtain ⟨after, ran, holds, word, -⟩ := (threeHeap_holds 1 2 3).linkListInsert_run 4
    (by decide : Accepts (threeHeap 1 2 3) 4096 1) (by decide) free
  have values := (threeHeap_holds 1 2 3).inserted_values 3 free word
  refine ⟨⟨after, ran, holds, values⟩, ?_⟩
  rintro ⟨after', nodes, ran', holds', stored, -⟩
  obtain rfl : after = after' := (ok_unique ran ran').2
  have same := (congrArg (List.map after.word) (holds.ring.unique holds'.ring)).trans
    (stored (by decide))
  exact absurd (values.symm.trans same) (by decide)

def RemovesAt (heap : Heap) (l : Addr) (nodes : List Addr) (index : Word) : Prop :=
  ∃ after nodes', (linkListRemove l index : CellM Unit) heap = .ok ((), after) ∧
    Holds after l nodes' ∧
    (InRange nodes.length index →
      nodes'.map after.word = (nodes.map heap.word).eraseIdx index.toNat) ∧
    (¬InRange nodes.length index → after = heap)

def RemoveHidden (values : List Word) (index : Nat) : Prop :=
  index + 1 < values.length ∧ values[index + 1]? = values[index]?

theorem removed_iff_hidden {after : Heap} {index : Nat} (more : index + 1 < nodes.length)
    (word : after.word = heap.word) :
    (nodes.eraseIdx (index + 1)).map after.word = (nodes.map heap.word).eraseIdx index ↔
      RemoveHidden (nodes.map heap.word) index := by
  have longer : index + 1 < (nodes.map heap.word).length := by rwa [List.length_map]
  have here : index < (nodes.map heap.word).length := by omega
  rw [RemoveHidden, word, ← List.eraseIdx_map, erase_next_iff longer,
    List.getElem?_eq_getElem longer, List.getElem?_eq_getElem here, Option.some.injEq]
  exact (and_iff_right longer).symm

/-- `link_list_remove` takes out the indexed value exactly when the index is outside the list or
the node behind it holds the same value; at the last index it never does. -/
theorem linkListRemove_exact_iff (heap : Heap) (l : Addr) (nodes : List Addr) (index : Word)
    (holds : Holds heap l nodes) (count : (heap.word l).toInt = nodes.length) :
    RemovesAt heap l nodes index ↔
      (InRange nodes.length index → RemoveHidden (nodes.map heap.word) index.toNat) := by
  have guards := guards_iff_inRange index count
  by_cases inside : InRange nodes.length index
  · obtain ⟨accepted, below⟩ := guards.mpr inside
    rw [forall_prop_of_true inside]
    by_cases more : index.toNat + 1 < nodes.length
    · obtain ⟨after, ran, holdsAfter, word, -⟩ := holds.linkListRemove_run accepted more
      rw [← removed_iff_hidden more word]
      constructor
      · rintro ⟨after', nodes', ran', holds', removed, -⟩
        obtain rfl : after = after' := (ok_unique ran ran').2
        rw [holdsAfter.ring.unique holds'.ring]
        exact removed inside
      · intro removed
        exact ⟨after, _, ran, holdsAfter, fun _ => removed, fun outside => absurd inside outside⟩
    · -- the sentinel is unlinked, and no ring is left
      obtain ⟨after, ran, poisoned, live⟩ := holds.linkListRemove_last accepted (by omega)
      have sane : after.Sane := holds.sane.of_live_le fun addr => by rw [live]; exact id
      refine iff_of_false ?_ (fun hidden => more (by simpa using hidden.1))
      rintro ⟨after', nodes', ran', holds', -⟩
      obtain rfl : after = after' := (ok_unique ran ran').2
      have wellFormed : WellFormed l ⟨after, 0⟩ := ⟨nodes', holds'⟩
      exact not_wellFormed_of_poisoned poisoned sane wellFormed
  · have refused := holds.linkListRemove_refused (mt guards.mp inside)
    refine iff_of_true ?_ (fun other => absurd other inside)
    exact ⟨heap, nodes, refused, holds, fun other => absurd other inside, fun _ => rfl⟩

theorem linkListRemove_exact_iff_copies :
    RemovesAt (threeHeap 4 4 3) 4096 [8192, 12288, 16384] 0 :=
  (linkListRemove_exact_iff (threeHeap 4 4 3) 4096 [8192, 12288, 16384] 0 (threeHeap_holds 4 4 3)
    (by decide)).mpr fun _ => ⟨by decide, rfl⟩

theorem linkListRemove_takes_neighbour :
    (∃ after, (linkListRemove 4096 0 : CellM Unit) (threeHeap 1 2 3) = .ok ((), after) ∧
      Holds after 4096 [8192, 16384] ∧ [8192, 16384].map after.word = [1, 3]) ∧
    ¬RemovesAt (threeHeap 1 2 3) 4096 [8192, 12288, 16384] 0 := by
  obtain ⟨after, ran, holds, word, -⟩ := (threeHeap_holds 1 2 3).linkListRemove_run
    (by decide : Accepts (threeHeap 1 2 3) 4096 0) (by decide)
  refine ⟨⟨after, ran, holds, by rw [word]; decide⟩, ?_⟩
  rintro ⟨after', nodes, ran', holds', removed, -⟩
  obtain rfl : after = after' := (ok_unique ran ran').2
  have same := removed (by decide)
  rw [← holds.ring.unique holds'.ring, word] at same
  exact absurd same (by decide)

end Operations

section Built

variable {l : Addr}

structure Counted (l : Addr) (client : Client) (nodes : List Addr) : Prop where
  holds : Holds client.heap l nodes
  count : client.heap.word l = BitVec.ofNat 32 nodes.length

theorem ofNat_pred (length : Nat) :
    BitVec.ofNat 32 (length + 1) - 1 = BitVec.ofNat 32 length := by
  rw [BitVec.ofNat_add]
  exact BitVec.add_sub_cancel _ _

theorem Counted.step {client next : Client} {nodes : List Addr} {op : EndOp}
    (counted : Counted l client nodes) (stepped : endStep .linkList l client op = some next) :
    ∃ nodes', Counted l next nodes' := by
  obtain ⟨holds, count⟩ := counted
  cases op with
  | push node value =>
      obtain ⟨_, accepted, -⟩ := Client.after_ok stepped
      obtain ⟨after, ran, holdsAfter, word⟩ :=
        Kind.linkList.push_run value holds (Kind.linkList.push_free accepted)
      obtain rfl : next.heap = after := (ok_unique accepted ran).2
      refine ⟨_, holdsAfter, ?_⟩
      rw [word, update_self, count, Kind.linkList.length_join, BitVec.ofNat_add]
      rfl
  | pop =>
      obtain ⟨value, popped, -⟩ := Client.after_ok stepped
      by_cases vacant : client.heap.word l = 0 ∨ nodes = []
      · have idle := holds.linkListPop_vacant client.ret vacant
        obtain ⟨-, same⟩ := ok_unique popped idle
        exact ⟨nodes, same ▸ holds, same ▸ count⟩
      · obtain ⟨nonzero, occupied⟩ := not_or.mp vacant
        obtain ⟨node, rest, rfl⟩ := List.exists_cons_of_ne_nil occupied
        obtain ⟨after, ran, removed⟩ := holds.linkListPop_cons client.ret nonzero
        obtain ⟨-, rfl⟩ := ok_unique popped ran
        refine ⟨rest, removed.holds, ?_⟩
        rw [removed.word, update_self, count, List.length_cons, ofNat_pred]

theorem Counted.run {client final : Client} {nodes : List Addr} {ops : List EndOp}
    (counted : Counted l client nodes) (ran : run (endStep .linkList l) client ops = some final) :
    ∃ nodes', Counted l final nodes' := by
  induction ops generalizing client nodes with
  | nil =>
      simp only [run_nil, Option.some.injEq] at ran
      exact ⟨nodes, ran ▸ counted⟩
  | cons op rest ih =>
      obtain ⟨next, stepped, remaining⟩ := run_cons_some ran
      obtain ⟨nodes', later⟩ := counted.step stepped
      exact ih later remaining

def ReadsAt (heap : Heap) (l : Addr) (nodes : List Addr) (index ret : Word) : Prop :=
  (linkListGet l index ret : CellM Word) heap =
    .ok (if InRange nodes.length index then (nodes.map heap.word).getD index.toNat ret else ret, heap)

/-- Where the counter, an `int`, is too small for the index or the index is negative, the value
that is missing or the last one passed is the one `*ret` held. -/
def ReadHidden (values : List Word) (index ret : Word) : Prop :=
  let count := (BitVec.ofNat 32 values.length).toInt
  if 0 ≤ index.toInt then
    index.toInt < values.length → index.toInt < count ∨ values[index.toNat]? = some ret
  else count = 0 ∨ count ≤ index.toInt ∨ values[min index.toNat (values.length - 1)]? = some ret

theorem getLastD_take_succ {values : List Word} (occupied : values ≠ []) (index : Nat) (ret : Word) :
    (values.take (index + 1)).getLastD ret = values.getD (min index (values.length - 1)) ret := by
  have positive := List.length_pos_iff.mpr occupied
  rw [List.getLastD_eq_getLast?, List.getLast?_take, List.getLast?_eq_getElem?,
    List.getD_eq_getElem?_getD]
  by_cases inside : index < values.length
  · simp [inside, Nat.min_eq_left (by omega : index ≤ values.length - 1)]
  · simp [List.getElem?_eq_none (by omega : values.length ≤ index),
      Nat.min_eq_right (by omega : values.length - 1 ≤ index)]

theorem toInt_ofNat_le (length : Nat) : (BitVec.ofNat 32 length).toInt ≤ length := by
  have wrapped := Nat.mod_le length 4294967296
  rw [BitVec.toInt_eq_toNat_cond, BitVec.toNat_ofNat]
  split <;> omega

theorem getD_eq_iff {values : List Word} {index : Nat} (inside : index < values.length) (ret : Word) :
    values.getD index ret = ret ↔ values[index]? = some ret := by
  simp [List.getD_eq_getElem?_getD, List.getElem?_eq_getElem inside]

theorem Counted.accepts_iff {client : Client} {nodes : List Addr} (counted : Counted l client nodes)
    (index : Word) :
    Accepts client.heap l index ↔ (BitVec.ofNat 32 nodes.length).toInt ≠ 0 ∧
      index.toInt < (BitVec.ofNat 32 nodes.length).toInt := by
  rw [Accepts, counted.count, BitVec.sle_eq_decide, decide_eq_false_iff_not, Int.not_le,
    ← BitVec.toInt_ne]
  rfl

theorem Counted.readsAt_iff {client : Client} {nodes : List Addr} (counted : Counted l client nodes)
    (index ret : Word) :
    ReadsAt client.heap l nodes index ret ↔
      ReadHidden (nodes.map client.heap.word) index ret := by
  have accepts := counted.accepts_iff index
  have small := toInt_ofNat_le nodes.length
  have length : (nodes.map client.heap.word).length = nodes.length := List.length_map _
  rw [ReadsAt, counted.holds.linkListGet_run, Except.ok.injEq, Prod.mk.injEq, and_iff_left rfl,
    ReadHidden, length]
  by_cases nonneg : 0 ≤ index.toInt
  · rw [if_pos nonneg]
    by_cases below : index.toInt < nodes.length
    · have inside : InRange nodes.length index := ⟨nonneg, below⟩
      have bound := inside.toNat_lt.2
      rw [if_pos inside, forall_prop_of_true below]
      by_cases counts : index.toInt < (BitVec.ofNat 32 nodes.length).toInt
      · have occupied : nodes.map client.heap.word ≠ [] := by
          rw [← List.length_pos_iff, length]
          omega
        refine iff_of_true ?_ (.inl counts)
        rw [if_pos (accepts.mpr ⟨by omega, counts⟩), getLastD_take_succ occupied, length,
          Nat.min_eq_left (by omega)]
      · rw [if_neg (fun accepted => counts (accepts.mp accepted).2), or_iff_right counts,
          ← getD_eq_iff (by rwa [length])]
        exact eq_comm
    · have outside : ¬InRange nodes.length index := fun inside => below inside.2
      have refused : ¬Accepts client.heap l index := by
        intro accepted
        have counts := (accepts.mp accepted).2
        omega
      refine iff_of_true ?_ (fun other => absurd other below)
      rw [if_neg outside, if_neg refused]
  · rw [if_neg nonneg, if_neg (fun inside : InRange nodes.length index => nonneg inside.1)]
    by_cases accepted : Accepts client.heap l index
    · obtain ⟨nonzero, counts⟩ := accepts.mp accepted
      have occupied : nodes.map client.heap.word ≠ [] := by
        intro empty
        rw [List.map_eq_nil_iff.mp empty] at nonzero
        exact nonzero rfl
      have positive := List.length_pos_iff.mpr occupied
      rw [if_pos accepted, getLastD_take_succ occupied, getD_eq_iff (by omega), length,
        or_iff_right nonzero, or_iff_right (Int.not_le.mpr counts)]
    · rw [if_neg accepted]
      refine iff_of_true rfl ?_
      rw [accepts, not_and_or, not_not, Int.not_lt] at accepted
      rcases accepted with zero | above
      · exact .inl zero
      · exact .inr (.inl above)

/-- On a list built by pushes and pops a read is exact unless a negative index gets past the
guards and ends on another value than `*ret` held, or the list is too long for its counter. -/
theorem linkListGet_exact_iff (heap : Heap) (l : Addr) (ret : Word) (sane : heap.Sane)
    (free : heap.Free l) :
    ∃ start, (addLinkList l : CellM Unit) heap = .ok ((), start) ∧
      ∀ ops client, run (endStep .linkList l) ⟨start, ret⟩ ops = some client →
        ∃ nodes, Holds client.heap l nodes ∧ ∀ index ret',
          ReadsAt client.heap l nodes index ret' ↔
            ReadHidden (nodes.map client.heap.word) index ret' := by
  refine ⟨heap.make l 0, addContainer_run free, ?_⟩
  intro ops client ran
  have initial : Counted l ⟨heap.make l 0, ret⟩ [] := ⟨Holds.fresh sane 0 free, by simp⟩
  obtain ⟨nodes, counted⟩ := initial.run ran
  exact ⟨nodes, counted.holds, counted.readsAt_iff⟩

theorem twoPushed : ∃ client,
    run (endStep .linkList 4096) ⟨vacantHeap.make 4096 0, 0⟩ [.push 8192 7, .push 12288 9] =
      some client ∧
    Holds client.heap 4096 [8192, 12288] ∧ [8192, 12288].map client.heap.word = [7, 9] ∧
    client.heap.word 4096 = 2 := by
  have fresh : Holds (vacantHeap.make 4096 0) 4096 [] := Holds.fresh ⟨rfl, rfl, rfl⟩ 0 (by decide)
  obtain ⟨middle, pushed, holdsMiddle, wordMiddle, live⟩ :=
    fresh.pushBack 7 (by decide : (vacantHeap.make 4096 0).Free 8192)
  have free : middle.Free 12288 := by
    refine ⟨?_, by decide, by decide, by decide⟩
    rw [live]
    decide
  obtain ⟨final, pushedAgain, holds, word, -⟩ := holdsMiddle.pushBack 9 free
  have first : endStep .linkList 4096 ⟨vacantHeap.make 4096 0, 0⟩ (.push 8192 7) =
      some ⟨middle, 0⟩ := by
    rw [endStep, Kind.push, linkListPush, Client.after, pushed]
  have second : endStep .linkList 4096 ⟨middle, 0⟩ (.push 12288 9) = some ⟨final, 0⟩ := by
    rw [endStep, Kind.push, linkListPush, Client.after, pushedAgain]
  refine ⟨⟨final, 0⟩, ?_, holds, ?_, ?_⟩
  · rw [run_cons, first, Option.bind_some, run_cons, second]
    rfl
  · rw [word, wordMiddle]
    decide
  · rw [word, wordMiddle]
    decide

theorem linkListGet_exact_iff_twoPushed : ∃ client,
    run (endStep .linkList 4096) ⟨vacantHeap.make 4096 0, 0⟩ [.push 8192 7, .push 12288 9] =
      some client ∧ ReadsAt client.heap 4096 [8192, 12288] 1 0 := by
  obtain ⟨client, ran, holds, values, -⟩ := twoPushed
  obtain ⟨start, made, exact⟩ := linkListGet_exact_iff vacantHeap 4096 0 ⟨rfl, rfl, rfl⟩ (by decide)
  obtain rfl : vacantHeap.make 4096 0 = start :=
    (ok_unique (addContainer_run (by decide)) made).2
  obtain ⟨nodes, holds', reads⟩ := exact _ client ran
  obtain rfl : nodes = [8192, 12288] := holds'.ring.unique holds.ring
  refine ⟨client, ran, (reads 1 0).mpr ?_⟩
  rw [values]
  exact fun _ => .inl (by decide)

theorem linkListGet_negative_stores : ∃ client,
    run (endStep .linkList 4096) ⟨vacantHeap.make 4096 0, 0⟩ [.push 8192 7, .push 12288 9] =
      some client ∧
    (linkListGet 4096 (-1) 0 : CellM Word) client.heap = .ok (9, client.heap) ∧
    ¬ReadsAt client.heap 4096 [8192, 12288] (-1) 0 := by
  obtain ⟨client, ran, holds, values, count⟩ := twoPushed
  have got := holds.linkListGet_run (-1) 0
  have accepted : Accepts client.heap 4096 (-1) := by
    rw [Accepts, count]
    decide
  rw [if_pos accepted, values] at got
  refine ⟨client, ran, got, ?_⟩
  intro reads
  rw [ReadsAt, got, if_neg (by decide)] at reads
  exact absurd (Prod.mk.inj (Except.ok.inj reads)).1 (by decide)

end Built

end LearnK.Container
