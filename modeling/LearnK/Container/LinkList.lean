import LearnK.Container.Sequence

/-! Runs of all five `LinkList` operations: what each step does to the ring, when the ring
survives and when the counter stays exact. -/

namespace LearnK.Container

open FaultM LinkedRing StepMachine Function

inductive LinkListOp
  | push (node : Addr) (value : Word)
  | insert (index : Word) (node : Addr) (value : Word)
  | remove (index : Word)
  | pop
  | get (index : Word)
  deriving DecidableEq, Repr

def linkListStep (l : Addr) (client : Client) : LinkListOp → Option Client
  | .push node value => client.after (linkListPush l node value) fun _ => client.ret
  | .insert index node value => client.after (linkListInsert l index node value) fun _ => client.ret
  | .remove index => client.after (linkListRemove l index) fun _ => client.ret
  | .pop => client.after (linkListPop l client.ret) id
  | .get index => client.after (linkListGet l index client.ret) id

def Placed (heap : Heap) : LinkListOp → Prop
  | .push node _ => heap.Free node
  | .insert _ node _ => heap.Free node
  | .remove _ => True
  | .pop => True
  | .get _ => True

def Rewires (heap : Heap) (l : Addr) (nodes : List Addr) : LinkListOp → Prop
  | .push _ _ => False
  | .insert index _ _ => Accepts heap l index ∧ index.toNat < nodes.length
  | .remove index => Accepts heap l index ∧ index.toNat < nodes.length
  | .pop => False
  | .get _ => False

inductive Effect (l : Addr) (before after : Heap) (nodes : List Addr) : LinkListOp → Prop
  | pushed {node : Addr} {value : Word} (holds : Holds after l (nodes ++ [node]))
      (count : after.word l = before.word l + 1) : Effect l before after nodes (.push node value)
  | inserted {index : Word} {node : Addr} {value : Word} {nodes' : List Addr}
      (rewires : Accepts before l index ∧ index.toNat < nodes.length) (holds : Holds after l nodes')
      (longer : nodes'.length = nodes.length + 1) (count : after.word l = before.word l) :
      Effect l before after nodes (.insert index node value)
  | removed {index : Word} {nodes' : List Addr} (accepted : Accepts before l index)
      (inner : index.toNat + 1 < nodes.length) (holds : Holds after l nodes')
      (shorter : nodes'.length + 1 = nodes.length) (count : after.word l = before.word l) :
      Effect l before after nodes (.remove index)
  | unheaded {index : Word} (accepted : Accepts before l index)
      (last : index.toNat + 1 = nodes.length) (poisoned : after.next l = listPoison1)
      (sane : after.Sane) : Effect l before after nodes (.remove index)
  | popped {rest : List Addr} (holds : Holds after l rest) (shorter : nodes.length = rest.length + 1)
      (count : after.word l = before.word l - 1) : Effect l before after nodes .pop
  | idle {op : LinkListOp} (same : after = before) (keeps : ¬Rewires before l nodes op)
      (noPush : ∀ node value, op ≠ .push node value) : Effect l before after nodes op

section Steps

variable {l : Addr} {client : Client} {nodes : List Addr}

theorem Holds.push_effect {node : Addr} (holds : Holds client.heap l nodes)
    (free : client.heap.Free node) (value : Word) :
    ∃ next, linkListStep l client (.push node value) = some next ∧
      Effect l client.heap next.heap nodes (.push node value) := by
  obtain ⟨after, ran, holdsAfter, word, -⟩ := holds.pushBack value free
  refine ⟨⟨after, client.ret⟩, ?_, .pushed holdsAfter (by rw [word, update_self])⟩
  rw [linkListStep, linkListPush, Client.after, ran]

theorem Holds.insert_effect {node : Addr} (holds : Holds client.heap l nodes) (index : Word)
    (free : client.heap.Free node) (value : Word) :
    ∃ next, linkListStep l client (.insert index node value) = some next ∧
      Effect l client.heap next.heap nodes (.insert index node value) := by
  by_cases rewires : Accepts client.heap l index ∧ index.toNat < nodes.length
  · obtain ⟨after, ran, holdsAfter, word, -⟩ :=
      holds.linkListInsert_run value rewires.1 rewires.2 free
    have different : l ≠ node := fun same => holds.free_notMem free (by simp [same])
    refine ⟨⟨after, client.ret⟩, ?_, .inserted rewires holdsAfter ?_ ?_⟩
    · rw [linkListStep, Client.after, ran]
    · rw [List.length_append, List.length_cons, Nat.add_succ, ← List.length_append,
        List.take_append_drop]
    · rw [word, update_of_ne different]
  · refine ⟨client, ?_, .idle rfl rewires (by simp)⟩
    rw [linkListStep, Client.after, holds.linkListInsert_refused node value rewires]

theorem Holds.remove_effect (holds : Holds client.heap l nodes) (index : Word) :
    ∃ next, linkListStep l client (.remove index) = some next ∧
      Effect l client.heap next.heap nodes (.remove index) := by
  by_cases rewires : Accepts client.heap l index ∧ index.toNat < nodes.length
  · obtain ⟨accepted, inside⟩ := rewires
    by_cases inner : index.toNat + 1 < nodes.length
    · obtain ⟨after, ran, holdsAfter, word, -⟩ := holds.linkListRemove_run accepted inner
      refine ⟨⟨after, client.ret⟩, ?_, .removed accepted inner holdsAfter ?_ ?_⟩
      · rw [linkListStep, Client.after, ran]
      · rw [List.length_eraseIdx_of_lt inner]
        omega
      · rw [word]
    · obtain ⟨after, ran, poisoned, live⟩ := holds.linkListRemove_last accepted (by omega)
      refine ⟨⟨after, client.ret⟩, ?_, .unheaded accepted (by omega) poisoned ?_⟩
      · rw [linkListStep, Client.after, ran]
      · exact holds.sane.of_live_le fun addr => by rw [live]; exact id
  · refine ⟨client, ?_, .idle rfl rewires (by simp)⟩
    rw [linkListStep, Client.after, holds.linkListRemove_refused rewires]

theorem Holds.pop_effect (holds : Holds client.heap l nodes) :
    ∃ next, linkListStep l client .pop = some next ∧
      Effect l client.heap next.heap nodes .pop := by
  by_cases vacant : client.heap.word l = 0 ∨ nodes = []
  · refine ⟨client, ?_, .idle rfl id (by simp)⟩
    rw [linkListStep, Client.after, holds.linkListPop_vacant client.ret vacant]
    rfl
  · obtain ⟨counted, occupied⟩ := not_or.mp vacant
    obtain ⟨node, rest, rfl⟩ := List.exists_cons_of_ne_nil occupied
    obtain ⟨after, ran, popped⟩ := holds.linkListPop_cons client.ret counted
    refine ⟨⟨after, client.heap.word node⟩, ?_, .popped popped.holds rfl ?_⟩
    · rw [linkListStep, Client.after, ran]
      rfl
    · rw [popped.word, update_self]

theorem Holds.get_effect (holds : Holds client.heap l nodes) (index : Word) :
    ∃ next, linkListStep l client (.get index) = some next ∧
      Effect l client.heap next.heap nodes (.get index) := by
  have got := holds.linkListGet_run index client.ret
  generalize (if Accepts client.heap l index then _ else client.ret) = value at got
  refine ⟨⟨client.heap, value⟩, ?_, .idle rfl id (by simp)⟩
  rw [linkListStep, Client.after, got]
  rfl

theorem Holds.step_effect (holds : Holds client.heap l nodes) {op : LinkListOp}
    (placed : Placed client.heap op) :
    ∃ next, linkListStep l client op = some next ∧ Effect l client.heap next.heap nodes op := by
  cases op with
  | push node value => exact holds.push_effect placed value
  | insert index node value => exact holds.insert_effect index placed value
  | remove index => exact holds.remove_effect index
  | pop => exact holds.pop_effect
  | get index => exact holds.get_effect index

theorem Holds.insert_unplaced {index : Word} {node : Addr} {value : Word} {next : Client}
    (holds : Holds client.heap l nodes) (taken : ¬client.heap.Free node)
    (stepped : linkListStep l client (.insert index node value) = some next) :
    Effect l client.heap next.heap nodes (.insert index node value) := by
  obtain ⟨_, ran, -⟩ := Client.after_ok stepped
  have refused : ¬(Accepts client.heap l index ∧ index.toNat < nodes.length) := by
    intro rewires
    rw [linkListInsert, holds.atIndex_run, if_pos rewires] at ran
    obtain ⟨_, _, added, -⟩ := bind_ok ran
    exact taken (addNode_free added)
  obtain ⟨-, same⟩ := ok_unique ran (holds.linkListInsert_refused node value refused)
  exact .idle same refused (by simp)

theorem Holds.effect {op : LinkListOp} {next : Client} (holds : Holds client.heap l nodes)
    (stepped : linkListStep l client op = some next) :
    Effect l client.heap next.heap nodes op := by
  by_cases placed : Placed client.heap op
  · obtain ⟨other, stepped', effect⟩ := holds.step_effect placed
    obtain rfl : other = next := Option.some.inj (stepped'.symm.trans stepped)
    exact effect
  · cases op with
    | push node value =>
        obtain ⟨_, ran, -⟩ := Client.after_ok stepped
        exact absurd (pushWith_free ran) placed
    | insert index node value => exact holds.insert_unplaced placed stepped
    | remove index => exact absurd trivial placed
    | pop => exact absurd trivial placed
    | get index => exact absurd trivial placed

end Steps

/-- Following `next` from the head comes back after distinct live nodes, with `prev` the way
back. -/
def WellFormed (l : Addr) (client : Client) : Prop := ∃ nodes, Holds client.heap l nodes

/-- A removal at the index of the ring's last node, which the guards let through. -/
def RemovesLast (l : Addr) (client : Client) : LinkListOp → Prop
  | .push _ _ => False
  | .insert _ _ _ => False
  | .remove index => Accepts client.heap l index ∧
      ∃ nodes, Holds client.heap l nodes ∧ index.toNat + 1 = nodes.length
  | .pop => False
  | .get _ => False

theorem not_wellFormed_of_poisoned {l : Addr} {client : Client}
    (poisoned : client.heap.next l = listPoison1) (sane : client.heap.Sane) :
    ¬WellFormed l client := by
  rintro ⟨nodes, holds⟩
  have live := holds.live _ holds.ring.first_mem
  rw [poisoned, sane.poison1] at live
  exact Bool.false_ne_true live

theorem wellFormed_step_iff {l : Addr} {client next : Client} {op : LinkListOp}
    (wellFormed : WellFormed l client) (stepped : linkListStep l client op = some next) :
    WellFormed l next ↔ ¬RemovesLast l client op := by
  obtain ⟨nodes, holds⟩ := wellFormed
  cases holds.effect stepped with
  | pushed holdsNext count => exact iff_of_true ⟨_, holdsNext⟩ id
  | inserted rewires holdsNext longer count => exact iff_of_true ⟨_, holdsNext⟩ id
  | removed accepted inner holdsNext shorter count =>
      refine iff_of_true ⟨_, holdsNext⟩ ?_
      rintro ⟨-, nodes', holds', last⟩
      rw [← holds.ring.unique holds'.ring] at last
      omega
  | unheaded accepted last poisoned sane =>
      refine iff_of_false (not_wellFormed_of_poisoned poisoned sane) ?_
      exact not_not_intro ⟨accepted, nodes, holds, last⟩
  | popped holdsNext shorter count => exact iff_of_true ⟨_, holdsNext⟩ id
  | idle same keeps noPush =>
      refine iff_of_true ⟨nodes, same ▸ holds⟩ ?_
      intro removes
      cases op with
      | remove index =>
          obtain ⟨accepted, nodes', holds', last⟩ := removes
          rw [← holds.ring.unique holds'.ring] at last
          exact keeps ⟨accepted, by omega⟩
      | push node value => exact removes
      | insert index node value => exact removes
      | pop => exact removes
      | get index => exact removes

/-- The ring of a `LinkList` survives a run exactly when no step of it removes at the last
index; on a ring no operation faults. -/
theorem linkList_wellFormed_iff (heap : Heap) (l : Addr) (ret : Word) (sane : heap.Sane)
    (free : heap.Free l) :
    ∃ start, (addLinkList l : CellM Unit) heap = .ok ((), start) ∧
      (∀ ops, Always (linkListStep l) (WellFormed l) ⟨start, ret⟩ ops ↔
        EachStep (linkListStep l) (fun client op => ¬RemovesLast l client op) ⟨start, ret⟩ ops) ∧
      ∀ client op, WellFormed l client → Placed client.heap op →
        ∃ next, linkListStep l client op = some next := by
  have initial : WellFormed l ⟨heap.make l 0, ret⟩ := ⟨[], Holds.fresh sane 0 free⟩
  refine ⟨heap.make l 0, addContainer_run free, ?_, ?_⟩
  · intro ops
    refine always_iff_eachStep (fun client op next wellFormed _ stepped _ =>
      wellFormed_step_iff wellFormed stepped) (always_true _ ops) initial
  · rintro client op ⟨nodes, holds⟩ placed
    obtain ⟨next, stepped, -⟩ := holds.step_effect placed
    exact ⟨next, stepped⟩

theorem linkList_wellFormed_iff_pushRemove :
    ∃ start, (addLinkList 4096 : CellM Unit) vacantHeap = .ok ((), start) ∧
      (Always (linkListStep 4096) (WellFormed 4096) ⟨start, 0⟩ [.push 8192 7, .remove 0] ↔
        EachStep (linkListStep 4096) (fun client op => ¬RemovesLast 4096 client op) ⟨start, 0⟩
          [.push 8192 7, .remove 0]) := by
  obtain ⟨start, made, exact, -⟩ := linkList_wellFormed_iff vacantHeap 4096 0 ⟨rfl, rfl, rfl⟩
    (by decide)
  exact ⟨start, made, exact _⟩

theorem linkListRemove_only_unlinks_head :
    ∃ start final, (addLinkList 4096 : CellM Unit) vacantHeap = .ok ((), start) ∧
      run (linkListStep 4096) ⟨start, 0⟩ [.push 8192 7, .remove 0] = some final ∧
      final.heap.next 4096 = listPoison1 ∧ ¬WellFormed 4096 final := by
  have observed : (run (linkListStep 4096) ⟨vacantHeap.make 4096 0, 0⟩
      [.push 8192 7, .remove 0]).map (fun client => (client.heap.next 4096, client.heap.live 0,
        client.heap.live listPoison1, client.heap.live listPoison2)) =
      some (listPoison1, false, false, false) := by decide +kernel
  obtain ⟨final, ran, fields⟩ := Option.map_eq_some_iff.mp observed
  simp only [Prod.mk.injEq] at fields
  obtain ⟨poisoned, null, poison1, poison2⟩ := fields
  exact ⟨_, final, addContainer_run (by decide), ran, poisoned,
    not_wellFormed_of_poisoned poisoned ⟨null, poison1, poison2⟩⟩

end LearnK.Container
