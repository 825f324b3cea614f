import LearnK.Container.Ring

/-! One specification for each container operation: on a ring of live nodes it runs without
a fault, and this is the ring, the counter and the values it leaves. -/

namespace LearnK.Container

open FaultM LinkedRing ListMemory Function

variable {heap : Heap} {l : Addr} {nodes : List Addr}

theorem Holds.listAdd_run {new : Addr} {first second : List Addr}
    (holds : Holds heap l (first ++ second)) (newLive : heap.live new = true)
    (fresh : new ∉ l :: (first ++ second)) :
    ∃ after, (listAdd new (first.getLastD l) : CellM Unit) heap = .ok ((), after) ∧
      Holds after l (first ++ new :: second) ∧ after.word = heap.word ∧ after.live = heap.live := by
  obtain ⟨after, added, holdsAfter, sameWord, sameLive⟩ := holds.splice newLive fresh
  refine ⟨after, ?_, holdsAfter, sameWord, sameLive⟩
  have live := holds.live (first.getLastD l) (cut_before_mem l first second)
  rw [listAdd, bind_apply, readNext_run live, holds.ring.link_across.1]
  exact added

theorem Holds.listAddTail_run {new : Addr} (holds : Holds heap l nodes)
    (newLive : heap.live new = true) (fresh : new ∉ l :: nodes) :
    ∃ after, (listAddTail new l : CellM Unit) heap = .ok ((), after) ∧
      Holds after l (nodes ++ [new]) ∧ after.word = heap.word ∧ after.live = heap.live := by
  have whole : Holds heap l (nodes ++ []) := by simpa using holds
  obtain ⟨after, added, holdsAfter, sameWord, sameLive⟩ :=
    whole.splice newLive (by simpa using fresh)
  refine ⟨after, ?_, holdsAfter, sameWord, sameLive⟩
  have link : heap.prev l = nodes.getLastD l := whole.ring.link_across.2
  rw [listAddTail, bind_apply, readPrev_run holds.headLive, link]
  exact added

theorem Holds.pushWith_run {add : Addr → Addr → CellM Unit} {node : Addr} {nodes' : List Addr}
    (value : Word) (holds : Holds heap l nodes) (free : heap.Free node)
    (adds : ∀ middle, Holds middle l nodes → middle.live node = true → ∃ after,
      add node l middle = .ok ((), after) ∧ Holds after l nodes' ∧ after.word = middle.word ∧
        after.live = middle.live) :
    ∃ after, pushWith add l node value heap = .ok ((), after) ∧ Holds after l nodes' ∧
      after.word = update (update heap.word node value) l (heap.word l + 1) ∧
      after.live = update heap.live node true := by
  obtain ⟨linked, added, holdsLinked, sameWord, sameLive⟩ :=
    adds _ (holds.make value free) (by simp)
  have different : l ≠ node := fun same => holds.free_notMem free (by simp [same])
  have counted : linked.word l = heap.word l := by
    rw [sameWord, Heap.make_word, update_of_ne different]
  refine ⟨{ linked with word := update linked.word l (linked.word l + 1) }, ?_, ?_, ?_, sameLive⟩
  · rw [pushWith, bind_apply, addNode_run value free]
    simp only
    rw [bind_apply, added]
    simp only
    rw [bind_apply, readWord_run holdsLinked.headLive]
    exact writeWord_run _ holdsLinked.headLive
  · exact holdsLinked.ofFields rfl rfl rfl
  · rw [counted, sameWord, Heap.make_word]

theorem pushWith_free {add : Addr → Addr → CellM Unit} {node : Addr} {value : Word}
    {result : Unit × Heap} (ran : pushWith add l node value heap = .ok result) : heap.Free node := by
  obtain ⟨_, _, added, -⟩ := bind_ok ran
  exact addNode_free added

theorem Holds.pushBack {node : Addr} (value : Word) (holds : Holds heap l nodes)
    (free : heap.Free node) :
    ∃ after, (pushWith listAddTail l node value : CellM Unit) heap = .ok ((), after) ∧
      Holds after l (nodes ++ [node]) ∧
      after.word = update (update heap.word node value) l (heap.word l + 1) ∧
      after.live = update heap.live node true := by
  refine holds.pushWith_run value free ?_
  intro middle holdsMiddle live
  exact holdsMiddle.listAddTail_run live (holds.free_notMem free)

theorem Holds.pushFront {node : Addr} (value : Word) (holds : Holds heap l nodes)
    (free : heap.Free node) :
    ∃ after, (pushWith listAdd l node value : CellM Unit) heap = .ok ((), after) ∧
      Holds after l (node :: nodes) ∧
      after.word = update (update heap.word node value) l (heap.word l + 1) ∧
      after.live = update heap.live node true := by
  refine holds.pushWith_run value free ?_
  intro middle holdsMiddle live
  have whole : Holds middle l ([] ++ nodes) := holdsMiddle
  exact whole.listAdd_run live (holds.free_notMem free)

theorem Holds.unlinkFirst {node : Addr} {rest : List Addr} (holds : Holds heap l (node :: rest)) :
    ∃ unlinked, (listDel node : CellM Unit) heap = .ok ((), unlinked) ∧
      Holds unlinked l rest ∧ unlinked.word = heap.word ∧ unlinked.live = heap.live := by
  have whole : Holds heap l ([] ++ node :: rest) := holds
  exact whole.unlink

theorem Holds.first_notMem {node : Addr} {rest : List Addr} (holds : Holds heap l (node :: rest)) :
    node ∉ l :: rest := by
  have distinct := holds.ring.nodup
  simp only [List.nodup_cons, List.mem_cons, not_or] at distinct ⊢
  exact ⟨Ne.symm distinct.1.1, distinct.2.1⟩

theorem Holds.next_head {node : Addr} {rest : List Addr} (holds : Holds heap l (node :: rest)) :
    heap.next l = node := by
  have whole : Holds heap l ([] ++ node :: rest) := holds
  exact whole.ring.link_across.1

theorem Holds.isVacant_true (holds : Holds heap l nodes) (vacant : heap.word l = 0 ∨ nodes = []) :
    (isVacant l : CellM Bool) heap = .ok (true, heap) := by
  have whole : Holds heap l ([] ++ nodes) := holds
  have link : heap.next l = nodes.headD l := whole.ring.link_across.1
  rw [isVacant, bind_apply, readWord_run holds.headLive]
  by_cases zero : heap.word l = 0
  · simp [zero, pure_apply]
  · simp only [zero, if_false]
    rw [bind_apply, readNext_run holds.headLive, link, vacant.resolve_left zero]
    simp [pure_apply]

theorem Holds.isVacant_false {node : Addr} {rest : List Addr}
    (holds : Holds heap l (node :: rest)) (counted : heap.word l ≠ 0) :
    (isVacant l : CellM Bool) heap = .ok (false, heap) := by
  have different : node ≠ l := fun same => holds.first_notMem (by simp [same])
  rw [isVacant, bind_apply, readWord_run holds.headLive]
  simp only [counted, if_false]
  rw [bind_apply, readNext_run holds.headLive, holds.next_head]
  simp [pure_apply, different]

structure Popped (heap after : Heap) (l node : Addr) (rest : List Addr) : Prop where
  holds : Holds after l rest
  word : after.word = update heap.word l (heap.word l - 1)
  live : after.live = update heap.live node false

theorem Holds.linkListPop_vacant (holds : Holds heap l nodes) (ret : Word)
    (vacant : heap.word l = 0 ∨ nodes = []) :
    (linkListPop l ret : CellM Word) heap = .ok (ret, heap) := by
  rw [linkListPop, bind_apply, holds.isVacant_true vacant]
  rfl

theorem Holds.takeFirst_vacant (holds : Holds heap l nodes) (ret : Word)
    (vacant : heap.word l = 0 ∨ nodes = []) :
    (takeFirst l ret : CellM Word) heap = .ok (ret, heap) := by
  rw [takeFirst, bind_apply, holds.isVacant_true vacant]
  rfl

theorem Holds.dropFirst {unlinked : Heap} {node : Addr} {rest : List Addr}
    (holds : Holds heap l (node :: rest)) (holdsUnlinked : Holds unlinked l rest)
    (sameLive : unlinked.live = heap.live) :
    Popped heap { unlinked with
      word := update heap.word l (heap.word l - 1)
      live := update unlinked.live node false } l node rest := by
  have freed := holdsUnlinked.kfree holds.first_notMem
  refine ⟨freed.ofFields rfl rfl rfl, rfl, ?_⟩
  rw [sameLive]

theorem Holds.linkListPop_cons {node : Addr} {rest : List Addr}
    (holds : Holds heap l (node :: rest)) (ret : Word) (counted : heap.word l ≠ 0) :
    ∃ after, (linkListPop l ret : CellM Word) heap = .ok (heap.word node, after) ∧
      Popped heap after l node rest := by
  obtain ⟨unlinked, deleted, holdsUnlinked, sameWord, sameLive⟩ := holds.unlinkFirst
  refine ⟨_, ?_, holds.dropFirst holdsUnlinked sameLive⟩
  have nodeLive : unlinked.live node = true := by
    rw [sameLive]
    exact holds.live node (by simp)
  have notNull : node ≠ 0 := by
    intro null
    have alive := holds.live node (by simp)
    simp [null, holds.sane.null] at alive
  have headLive : update unlinked.live node false l = true := by
    rw [update_of_ne (fun same => holds.first_notMem (by simp [same]))]
    exact holdsUnlinked.headLive
  rw [linkListPop, bind_apply, holds.isVacant_false counted]
  simp only [Bool.false_eq_true, if_false]
  rw [bind_apply, readNext_run holds.headLive, holds.next_head]
  simp only [notNull, if_false]
  rw [bind_apply, deleted]
  simp only [bind_apply, readWord_run, nodeLive, kfree_run, headLive, writeWord_run, pure_apply,
    sameWord]

theorem Holds.takeFirst_cons {node : Addr} {rest : List Addr}
    (holds : Holds heap l (node :: rest)) (ret : Word) (counted : heap.word l ≠ 0) :
    ∃ after, (takeFirst l ret : CellM Word) heap = .ok (heap.word node, after) ∧
      Popped heap after l node rest := by
  obtain ⟨unlinked, deleted, holdsUnlinked, sameWord, sameLive⟩ := holds.unlinkFirst
  refine ⟨_, ?_, holds.dropFirst holdsUnlinked sameLive⟩
  have nodeLive : unlinked.live node = true := by
    rw [sameLive]
    exact holds.live node (by simp)
  have different : node ≠ l := fun same => holds.first_notMem (by simp [same])
  rw [takeFirst, bind_apply, holds.isVacant_false counted]
  simp only [Bool.false_eq_true, if_false]
  rw [bind_apply, readNext_run holds.headLive, holds.next_head]
  simp only
  rw [bind_apply, deleted]
  simp only [bind_apply, readWord_run, nodeLive, kfree_run, holdsUnlinked.headLive, writeWord_run,
    pure_apply, sameWord, update_of_ne different]

theorem Holds.next_node {first rest : List Addr} {node : Addr}
    (holds : Holds heap l (first ++ node :: rest)) :
    heap.live node = true ∧ node ≠ l ∧ heap.next node = rest.headD l := by
  have shape : first ++ node :: rest = (first ++ [node]) ++ rest := by simp
  have link := (shape ▸ holds.ring).link_across.1
  rw [List.getLastD_concat] at link
  refine ⟨holds.live node (by simp), ?_, link⟩
  intro same
  exact (List.nodup_cons.mp holds.ring.nodup).1 (by simp [same])

theorem toInt_succ {count : Word} {length : Nat} (counted : count.toInt = length)
    (room : length + 1 < 2147483648) : (count + 1).toInt = ((length + 1 : Nat) : Int) := by
  rw [BitVec.toInt_add, counted, show (1 : Word).toInt = 1 from rfl, Int.bmod_eq_of_le]
  all_goals omega

theorem toInt_pred {count : Word} {length : Nat} (counted : count.toInt = ((length + 1 : Nat) : Int)) :
    (count - 1).toInt = length := by
  have bound := BitVec.toInt_lt (x := count)
  rw [BitVec.toInt_sub, counted, show (1 : Word).toInt = 1 from rfl, Int.bmod_eq_of_le]
  all_goals omega

theorem count_ne_zero {count : Word} {length : Nat} (counted : count.toInt = ((length + 1 : Nat) : Int)) :
    count ≠ 0 := by
  rintro rfl
  simp at counted
  omega

theorem toNat_pred {index : Word} (positive : index ≠ 0) :
    (index - 1).toNat = index.toNat - 1 ∧ 0 < index.toNat := by
  have nonzero : index.toNat ≠ 0 := fun zero => positive (BitVec.eq_of_toNat_eq zero)
  have bound := index.isLt
  refine ⟨?_, Nat.pos_of_ne_zero nonzero⟩
  rw [BitVec.toNat_sub_of_le (BitVec.le_def.mpr (by simp; omega))]
  rfl

theorem Holds.atIndexLoop_run (act : Addr → CellM Unit) {first rest : List Addr} {index : Word}
    {fuel : Nat} (holds : Holds heap l (first ++ rest)) (enough : index.toNat < fuel) :
    atIndexLoop l act fuel (rest.headD l) index heap =
      if index.toNat < rest.length then act ((rest.drop (index.toNat + 1)).headD l) heap
      else .ok ((), heap) := by
  induction rest generalizing first index fuel with
  | nil =>
      obtain ⟨more, rfl⟩ : ∃ more, fuel = more + 1 := ⟨fuel - 1, by omega⟩
      rw [atIndexLoop, List.headD_nil, bind_apply, readNext_run holds.headLive]
      simp [pure_apply]
  | cons node tail ih =>
      obtain ⟨more, rfl⟩ : ∃ more, fuel = more + 1 := ⟨fuel - 1, by omega⟩
      obtain ⟨live, different, link⟩ := holds.next_node
      rw [atIndexLoop, List.headD_cons, bind_apply, readNext_run live, link]
      simp only [different, if_false]
      by_cases zero : index = 0
      · simp [zero]
      · obtain ⟨less, positive⟩ := toNat_pred zero
        have onwards : Holds heap l ((first ++ [node]) ++ tail) := by simpa using holds
        simp only [zero, if_false]
        rw [ih onwards (by omega), less, List.length_cons]
        have bound : index.toNat - 1 < tail.length ↔ index.toNat < tail.length + 1 := by omega
        have dropped : (node :: tail).drop (index.toNat + 1) = tail.drop (index.toNat - 1 + 1) := by
          rw [List.drop_succ_cons, Nat.sub_add_cancel positive]
        simp only [bound, dropped]

def Accepts (heap : Heap) (l : Addr) (index : Word) : Prop :=
  heap.word l ≠ 0 ∧ (heap.word l).sle index = false

instance (heap : Heap) (l : Addr) (index : Word) : Decidable (Accepts heap l index) :=
  inferInstanceAs (Decidable (_ ∧ _))

theorem Holds.atIndex_run (act : Addr → CellM Unit) (holds : Holds heap l nodes) (index : Word) :
    atIndex l index act heap =
      if Accepts heap l index ∧ index.toNat < nodes.length then
        act ((nodes.drop (index.toNat + 1)).headD l) heap
      else .ok ((), heap) := by
  rw [atIndex, bind_apply]
  by_cases vacant : heap.word l = 0 ∨ nodes = []
  · have refused : ¬(Accepts heap l index ∧ index.toNat < nodes.length) := by
      rintro ⟨accepted, inside⟩
      rcases vacant with zero | rfl
      · exact accepted.1 zero
      · simp at inside
    rw [holds.isVacant_true vacant, if_neg refused]
    rfl
  · obtain ⟨counted, occupied⟩ := not_or.mp vacant
    obtain ⟨node, rest, rfl⟩ := List.exists_cons_of_ne_nil occupied
    rw [holds.isVacant_false counted]
    simp only [Bool.false_eq_true, if_false]
    rw [bind_apply, readWord_run holds.headLive]
    simp only
    cases beyond : (heap.word l).sle index with
    | true =>
        have refused : ¬Accepts heap l index := by simp [Accepts, beyond]
        simp [refused, pure_apply]
    | false =>
        have accepted : Accepts heap l index := ⟨counted, beyond⟩
        have whole : Holds heap l ([] ++ node :: rest) := holds
        have scanned := whole.atIndexLoop_run act (Nat.lt_succ_self index.toNat)
        simp only [accepted, true_and, Bool.false_eq_true, if_false]
        rw [bind_apply, readNext_run holds.headLive, holds.next_head]
        exact scanned

/-- Where an insertion that reaches its index links the new node: behind the node after the
indexed one, at the front when the indexed one is the last. -/
def insertPoint (length index : Nat) : Nat := if index + 1 < length then index + 2 else 0

theorem getLastD_take_insertPoint {index : Nat} (inside : index < nodes.length) :
    (nodes.take (insertPoint nodes.length index)).getLastD l =
      (nodes.drop (index + 1)).headD l := by
  rw [insertPoint]
  split
  · rename_i more
    rw [List.take_succ_eq_append_getElem more, List.getLastD_concat,
      List.drop_eq_getElem_cons more, List.headD_cons]
  · rename_i last
    rw [List.drop_eq_nil_of_le (by omega)]
    rfl

theorem Holds.linkListInsert_run {node : Addr} (value : Word) {index : Word}
    (holds : Holds heap l nodes) (accepted : Accepts heap l index)
    (inside : index.toNat < nodes.length) (free : heap.Free node) :
    ∃ after, (linkListInsert l index node value : CellM Unit) heap = .ok ((), after) ∧
      Holds after l (nodes.take (insertPoint nodes.length index.toNat) ++
        node :: nodes.drop (insertPoint nodes.length index.toNat)) ∧
      after.word = update heap.word node value ∧ after.live = update heap.live node true := by
  have cut : Holds (heap.make node value) l
      (nodes.take (insertPoint nodes.length index.toNat) ++
        nodes.drop (insertPoint nodes.length index.toNat)) := by
    rw [List.take_append_drop]
    exact holds.make value free
  have outside := holds.free_notMem free
  rw [← List.take_append_drop (insertPoint nodes.length index.toNat) nodes] at outside
  obtain ⟨after, added, holdsAfter, sameWord, sameLive⟩ := cut.listAdd_run (by simp) outside
  refine ⟨after, ?_, holdsAfter, sameWord, sameLive⟩
  rw [linkListInsert, holds.atIndex_run, if_pos ⟨accepted, inside⟩, bind_apply,
    addNode_run value free, ← getLastD_take_insertPoint inside]
  exact added

theorem Holds.linkListInsert_refused {index : Word} (node : Addr) (value : Word)
    (holds : Holds heap l nodes) (refused : ¬(Accepts heap l index ∧ index.toNat < nodes.length)) :
    (linkListInsert l index node value : CellM Unit) heap = .ok ((), heap) := by
  rw [linkListInsert, holds.atIndex_run, if_neg refused]

theorem Holds.linkListRemove_run {index : Word} (holds : Holds heap l nodes)
    (accepted : Accepts heap l index) (before : index.toNat + 1 < nodes.length) :
    ∃ after, (linkListRemove l index : CellM Unit) heap = .ok ((), after) ∧
      Holds after l (nodes.eraseIdx (index.toNat + 1)) ∧
      after.word = heap.word ∧ after.live = heap.live := by
  have shape : nodes = nodes.take (index.toNat + 1) ++
      nodes[index.toNat + 1] :: nodes.drop (index.toNat + 1 + 1) := by
    rw [← List.drop_eq_getElem_cons before, List.take_append_drop]
  obtain ⟨after, deleted, holdsAfter, same⟩ := (shape ▸ holds).unlink
  refine ⟨after, ?_, ?_, same⟩
  · rw [linkListRemove, holds.atIndex_run, if_pos ⟨accepted, by omega⟩,
      List.drop_eq_getElem_cons before, List.headD_cons]
    exact deleted
  · rw [List.eraseIdx_eq_take_drop_succ]
    exact holdsAfter

theorem Holds.linkListRemove_last {index : Word} (holds : Holds heap l nodes)
    (accepted : Accepts heap l index) (last : index.toNat + 1 = nodes.length) :
    ∃ after, (linkListRemove l index : CellM Unit) heap = .ok ((), after) ∧
      after.next l = listPoison1 ∧ after.live = heap.live := by
  have front : Holds heap l ([] ++ nodes) := holds
  have back : Holds heap l (nodes ++ []) := by simpa using holds
  have nextLive : heap.live (heap.next l) = true := by
    have link : heap.next l = nodes.headD l := front.ring.link_across.1
    rw [link]
    exact holds.live _ (cut_after_mem l [] nodes)
  have prevLive : heap.live (heap.prev l) = true := by
    have link : heap.prev l = nodes.getLastD l := back.ring.link_across.2
    rw [link]
    exact back.live _ (cut_before_mem l nodes [])
  have deleted := listDel_run holds.headLive prevLive nextLive
  have removed : (linkListRemove l index : CellM Unit) heap = (listDel l : CellM Unit) heap := by
    rw [linkListRemove, holds.atIndex_run, if_pos ⟨accepted, by omega⟩,
      List.drop_eq_nil_of_le (by omega)]
    rfl
  rw [removed, deleted]
  exact ⟨_, rfl, by simp, rfl⟩

theorem Holds.linkListRemove_refused {index : Word} (holds : Holds heap l nodes)
    (refused : ¬(Accepts heap l index ∧ index.toNat < nodes.length)) :
    (linkListRemove l index : CellM Unit) heap = .ok ((), heap) := by
  rw [linkListRemove, holds.atIndex_run, if_neg refused]

theorem Holds.getLoop_run {first rest : List Addr} {index : Word} {fuel : Nat}
    (holds : Holds heap l (first ++ rest)) (ret : Word) (enough : index.toNat < fuel) :
    (getLoop l fuel (rest.headD l) index ret : CellM Word) heap =
      .ok (((rest.map heap.word).take (index.toNat + 1)).getLastD ret, heap) := by
  induction rest generalizing first index fuel ret with
  | nil =>
      obtain ⟨more, rfl⟩ : ∃ more, fuel = more + 1 := ⟨fuel - 1, by omega⟩
      simp [getLoop, pure_apply]
  | cons node tail ih =>
      obtain ⟨more, rfl⟩ : ∃ more, fuel = more + 1 := ⟨fuel - 1, by omega⟩
      obtain ⟨live, different, link⟩ := holds.next_node
      rw [getLoop, List.headD_cons, if_neg different, bind_apply, readWord_run live]
      simp only [List.map_cons, List.take_succ_cons, List.getLastD_cons]
      by_cases zero : index = 0
      · simp [zero, pure_apply]
      · obtain ⟨less, positive⟩ := toNat_pred zero
        have onwards : Holds heap l ((first ++ [node]) ++ tail) := by simpa using holds
        simp only [zero, if_false]
        rw [bind_apply, readNext_run live, link]
        simp only
        rw [ih onwards (heap.word node) (by omega), less, Nat.sub_add_cancel positive]

theorem Holds.linkListGet_run (holds : Holds heap l nodes) (index ret : Word) :
    (linkListGet l index ret : CellM Word) heap =
      .ok (if Accepts heap l index then
        ((nodes.map heap.word).take (index.toNat + 1)).getLastD ret else ret, heap) := by
  rw [linkListGet, bind_apply]
  by_cases vacant : heap.word l = 0 ∨ nodes = []
  · rw [holds.isVacant_true vacant]
    rcases vacant with zero | rfl
    · simp [Accepts, zero, pure_apply]
    · simp [pure_apply]
  · obtain ⟨counted, occupied⟩ := not_or.mp vacant
    obtain ⟨node, rest, rfl⟩ := List.exists_cons_of_ne_nil occupied
    rw [holds.isVacant_false counted]
    simp only [Bool.false_eq_true, if_false]
    rw [bind_apply, readWord_run holds.headLive]
    simp only
    cases beyond : (heap.word l).sle index with
    | true => simp [Accepts, beyond, pure_apply]
    | false =>
        have accepted : Accepts heap l index := ⟨counted, beyond⟩
        have whole : Holds heap l ([] ++ node :: rest) := holds
        have scanned := whole.getLoop_run ret (Nat.lt_succ_self index.toNat)
        simp only [accepted, if_true, Bool.false_eq_true, if_false]
        rw [bind_apply, readNext_run holds.headLive, holds.next_head]
        exact scanned

end LearnK.Container
