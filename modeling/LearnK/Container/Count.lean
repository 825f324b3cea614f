import LearnK.Container.LinkList

/-! The counter of a `LinkList` against the nodes its ring holds. -/

namespace LearnK.Container

open FaultM StepMachine Function

def popTimes (l : Addr) : Nat → Word → CellM (List Word)
  | 0, _ => pure []
  | times + 1, ret => do
      let value ← linkListPop l ret
      let values ← popTimes l times value
      pure (value :: values)

/-- `link_list_len` is the number of nodes in the ring, and that many pops return the stored
values in order and leave the ring empty. -/
def CountExact (l : Addr) (client : Client) : Prop :=
  ∃ nodes count final, Holds client.heap l nodes ∧
    (linkListLen l : CellM Word) client.heap = .ok (count, client.heap) ∧
    count.toInt = nodes.length ∧
    popTimes l count.toInt.toNat client.ret client.heap =
      .ok (nodes.map client.heap.word, final) ∧
    Holds final l []

theorem Holds.popTimes_run {heap : Heap} {l : Addr} {nodes : List Addr} (holds : Holds heap l nodes)
    (exact : (heap.word l).toInt = nodes.length) (ret : Word) :
    ∃ final, popTimes l nodes.length ret heap = .ok (nodes.map heap.word, final) ∧
      Holds final l [] := by
  induction nodes generalizing heap ret with
  | nil => exact ⟨heap, rfl, holds⟩
  | cons node rest ih =>
      obtain ⟨after, ran, popped⟩ := holds.linkListPop_cons ret (count_ne_zero exact)
      have counter : (after.word l).toInt = rest.length := by
        rw [popped.word, update_self]
        exact toInt_pred exact
      obtain ⟨final, drained, holdsFinal⟩ := ih popped.holds counter (heap.word node)
      have values : rest.map heap.word = rest.map after.word := by
        refine popped.holds.map_word ?_
        intro addr notHead _
        rw [popped.word, update_of_ne notHead]
      refine ⟨final, ?_, holdsFinal⟩
      rw [List.length_cons, popTimes, bind_apply, ran]
      simp only
      rw [bind_apply, drained, List.map_cons, values]
      rfl

theorem countExact_iff {l : Addr} {client : Client} :
    CountExact l client ↔
      ∃ nodes, Holds client.heap l nodes ∧ (client.heap.word l).toInt = nodes.length := by
  constructor
  · rintro ⟨nodes, count, _, holds, counted, exact, -⟩
    obtain ⟨rfl, -⟩ := ok_unique counted (readWord_run holds.headLive)
    exact ⟨nodes, holds, exact⟩
  · rintro ⟨nodes, holds, exact⟩
    obtain ⟨final, drained, holdsFinal⟩ := holds.popTimes_run exact client.ret
    refine ⟨nodes, client.heap.word l, final, holds, readWord_run holds.headLive, exact, ?_, holdsFinal⟩
    rw [exact]
    exact drained

def Uncounted (l : Addr) (client : Client) : LinkListOp → Prop
  | .push _ _ => False
  | .insert index _ _ => 0 ≤ index.toInt ∧ index.toInt < (client.heap.word l).toInt
  | .remove index => 0 ≤ index.toInt ∧ index.toInt < (client.heap.word l).toInt
  | .pop => False
  | .get _ => False

theorem accepts_iff {heap : Heap} {l : Addr} {nodes : List Addr} {index : Word}
    (exact : (heap.word l).toInt = nodes.length) :
    Accepts heap l index ∧ index.toNat < nodes.length ↔
      0 ≤ index.toInt ∧ index.toInt < (heap.word l).toInt := by
  have bound := BitVec.toInt_lt (x := heap.word l)
  have below : (heap.word l).sle index = false ↔ index.toInt < (heap.word l).toInt := by
    rw [BitVec.sle_eq_decide, decide_eq_false_iff_not, Int.not_le]
  have signed : index.toInt = if index.toNat < 2147483648 then (index.toNat : Int)
      else (index.toNat : Int) - 4294967296 := by
    rw [BitVec.toInt_eq_toNat_cond]
    split <;> split <;> omega
  have limit := index.isLt
  rw [Accepts, below]
  constructor
  · rintro ⟨⟨-, less⟩, inside⟩
    refine ⟨?_, less⟩
    split at signed <;> omega
  · rintro ⟨nonnegative, less⟩
    have inside : index.toNat < nodes.length := by
      split at signed <;> omega
    refine ⟨⟨?_, less⟩, inside⟩
    intro zero
    rw [zero] at less
    simp at less
    omega

theorem rewires_iff_uncounted {l : Addr} {client : Client} {nodes : List Addr} {op : LinkListOp}
    (exact : (client.heap.word l).toInt = nodes.length) :
    Rewires client.heap l nodes op ↔ Uncounted l client op := by
  cases op with
  | push node value => rfl
  | insert index node value => exact accepts_iff exact
  | remove index => exact accepts_iff exact
  | pop => rfl
  | get index => rfl

def Short (l : Addr) (client : Client) : Prop :=
  ∃ nodes, Holds client.heap l nodes ∧ nodes.length < 2147483648

theorem Holds.step_length_le {l : Addr} {client next : Client} {nodes : List Addr} {op : LinkListOp}
    (holds : Holds client.heap l nodes) (stepped : linkListStep l client op = some next)
    (wellFormed : WellFormed l next) :
    ∃ nodes', Holds next.heap l nodes' ∧ nodes'.length ≤ nodes.length + 1 := by
  cases holds.effect stepped with
  | pushed holdsNext count => exact ⟨_, holdsNext, by simp⟩
  | inserted rewires holdsNext longer count => exact ⟨_, holdsNext, by omega⟩
  | removed accepted inner holdsNext shorter count => exact ⟨_, holdsNext, by omega⟩
  | unheaded accepted last poisoned sane =>
      exact absurd wellFormed (not_wellFormed_of_poisoned poisoned sane)
  | popped holdsNext shorter count => exact ⟨_, holdsNext, by omega⟩
  | idle same keeps noPush => exact ⟨nodes, same ▸ holds, by omega⟩

theorem Holds.always_short {l : Addr} {client : Client} {nodes : List Addr} {ops : List LinkListOp}
    (holds : Holds client.heap l nodes) (few : nodes.length + ops.length < 2147483648)
    (wellFormed : Always (linkListStep l) (WellFormed l) client ops) :
    Always (linkListStep l) (Short l) client ops := by
  induction ops generalizing client nodes with
  | nil => exact ⟨nodes, holds, by simpa using few⟩
  | cons op rest ih =>
      rw [List.length_cons] at few
      refine ⟨⟨nodes, holds, by omega⟩, ?_⟩
      intro next stepped
      have later := wellFormed.2 next stepped
      obtain ⟨nodes', holdsNext, longer⟩ := holds.step_length_le stepped later.start
      exact ih holdsNext (by omega) later

theorem countExact_step_iff {l : Addr} {client next : Client} {op : LinkListOp}
    (exactBefore : CountExact l client) (stepped : linkListStep l client op = some next)
    (short : Short l next) : CountExact l next ↔ ¬Uncounted l client op := by
  obtain ⟨nodes, holds, exact⟩ := countExact_iff.mp exactBefore
  obtain ⟨nodes', holds', small⟩ := short
  rw [countExact_iff, ← rewires_iff_uncounted exact]
  cases holds.effect stepped with
  | pushed holdsNext count =>
      rw [holds'.ring.unique holdsNext.ring, List.length_append] at small
      refine iff_of_true ⟨_, holdsNext, ?_⟩ id
      rw [count, List.length_append]
      exact toInt_succ exact small
  | inserted rewires holdsNext longer count =>
      refine iff_of_false ?_ (not_not_intro rewires)
      rintro ⟨other, holdsOther, exactNext⟩
      rw [holdsOther.ring.unique holdsNext.ring, count, exact] at exactNext
      omega
  | removed accepted inner holdsNext shorter count =>
      refine iff_of_false ?_ (not_not_intro ⟨accepted, by omega⟩)
      rintro ⟨other, holdsOther, exactNext⟩
      rw [holdsOther.ring.unique holdsNext.ring, count, exact] at exactNext
      omega
  | unheaded accepted last poisoned sane =>
      exact absurd ⟨nodes', holds'⟩ (not_wellFormed_of_poisoned poisoned sane)
  | popped holdsNext shorter count =>
      refine iff_of_true ⟨_, holdsNext, ?_⟩ id
      rw [count]
      exact toInt_pred (by rw [exact, shorter])
  | idle same keeps noPush =>
      refine iff_of_true ⟨nodes, same ▸ holds, ?_⟩ keeps
      rw [same]
      exact exact

/-- Along a run of fewer than 2^31 operations that keeps the ring, the counter stays exact as
long as no insertion or removal at an index below it is made. -/
theorem linkList_countExact_iff (heap : Heap) (l : Addr) (ret : Word) (sane : heap.Sane)
    (free : heap.Free l) :
    ∃ start, (addLinkList l : CellM Unit) heap = .ok ((), start) ∧
      ∀ ops, ops.length < 2147483648 →
        Always (linkListStep l) (WellFormed l) ⟨start, ret⟩ ops →
        (Always (linkListStep l) (CountExact l) ⟨start, ret⟩ ops ↔
          EachStep (linkListStep l) (fun client op => ¬Uncounted l client op) ⟨start, ret⟩ ops) := by
  have holds : Holds (heap.make l 0) l [] := Holds.fresh sane 0 free
  refine ⟨heap.make l 0, addContainer_run free, ?_⟩
  intro ops few wellFormed
  have short := Holds.always_short holds (by simpa using few) wellFormed
  have initial : CountExact l ⟨heap.make l 0, ret⟩ := countExact_iff.mpr ⟨[], holds, by simp⟩
  exact always_iff_eachStep (fun client op next exact _ stepped short =>
    countExact_step_iff exact stepped short) short initial

theorem pushInsert_wellFormed {l : Addr} {client : Client} {ops : List LinkListOp}
    (growing : ∀ op ∈ ops, ∀ index, op ≠ .remove index) (initial : WellFormed l client) :
    Always (linkListStep l) (WellFormed l) client ops := by
  induction ops generalizing client with
  | nil => exact initial
  | cons op rest ih =>
      refine ⟨initial, ?_⟩
      intro next stepped
      refine ih (fun other member => growing other (by simp [member])) ?_
      refine (wellFormed_step_iff initial stepped).mpr ?_
      cases op with
      | remove index => exact absurd rfl (growing (.remove index) (by simp) index)
      | push node value => exact id
      | insert index node value => exact id
      | pop => exact id
      | get index => exact id

theorem linkList_countExact_iff_pushInsert :
    ∃ start, (addLinkList 4096 : CellM Unit) vacantHeap = .ok ((), start) ∧
      (Always (linkListStep 4096) (CountExact 4096) ⟨start, 0⟩ [.push 8192 7, .insert 0 12288 9] ↔
        EachStep (linkListStep 4096) (fun client op => ¬Uncounted 4096 client op) ⟨start, 0⟩
          [.push 8192 7, .insert 0 12288 9]) := by
  obtain ⟨start, made, exact⟩ := linkList_countExact_iff vacantHeap 4096 0 ⟨rfl, rfl, rfl⟩
    (by decide)
  have fresh : (addLinkList 4096 : CellM Unit) vacantHeap = .ok ((), vacantHeap.make 4096 0) :=
    addContainer_run (by decide)
  obtain rfl : start = vacantHeap.make 4096 0 := (ok_unique made fresh).2
  have initial : WellFormed 4096 ⟨vacantHeap.make 4096 0, 0⟩ :=
    ⟨[], Holds.fresh ⟨rfl, rfl, rfl⟩ 0 (by decide)⟩
  exact ⟨_, made, exact _ (by decide) (pushInsert_wellFormed (by simp) initial)⟩

theorem linkListInsert_uncounted :
    ∃ start final, (addLinkList 4096 : CellM Unit) vacantHeap = .ok ((), start) ∧
      run (linkListStep 4096) ⟨start, 0⟩ [.push 8192 7, .insert 0 12288 9] = some final ∧
      Always (linkListStep 4096) (WellFormed 4096) ⟨start, 0⟩ [.push 8192 7, .insert 0 12288 9] ∧
      ¬CountExact 4096 final := by
  have holds : Holds (vacantHeap.make 4096 0) 4096 [] := Holds.fresh ⟨rfl, rfl, rfl⟩ 0 (by decide)
  have wellFormed : Always (linkListStep 4096) (WellFormed 4096) ⟨vacantHeap.make 4096 0, 0⟩
      [.push 8192 7, .insert 0 12288 9] := pushInsert_wellFormed (by simp) ⟨[], holds⟩
  have short := Holds.always_short holds (by decide) wellFormed
  have initial : CountExact 4096 ⟨vacantHeap.make 4096 0, 0⟩ :=
    countExact_iff.mpr ⟨[], holds, by simp⟩
  obtain ⟨middle, pushed, counted⟩ := Option.map_eq_some_iff.mp (by decide +kernel :
    (linkListStep 4096 ⟨vacantHeap.make 4096 0, 0⟩ (.push 8192 7)).map (·.heap.word 4096) =
      some 1)
  obtain ⟨final, ran⟩ := Option.isSome_iff_exists.mp (by decide +kernel :
    (run (linkListStep 4096) ⟨vacantHeap.make 4096 0, 0⟩
      [.push 8192 7, .insert 0 12288 9]).isSome = true)
  obtain ⟨other, pushed', rest⟩ := run_cons_some ran
  obtain rfl : middle = other := Option.some.inj (pushed.symm.trans pushed')
  obtain ⟨last, inserted, done⟩ := run_cons_some rest
  obtain rfl : last = final := Option.some.inj done
  have exactMiddle : CountExact 4096 middle :=
    (countExact_step_iff initial pushed (short.2 middle pushed).start).mpr id
  refine ⟨_, last, addContainer_run (by decide), ran, wellFormed, ?_⟩
  rw [countExact_step_iff exactMiddle inserted ((short.2 middle pushed).2 last inserted)]
  refine not_not_intro ?_
  rw [Uncounted, counted]
  decide

end LearnK.Container
