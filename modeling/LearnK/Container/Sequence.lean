import LearnK.Container.Operations

/-! A `Queue`, a `Stack` and a `LinkList` used through its ends against the sequence each of
them stands for. -/

namespace LearnK.Container

open FaultM StepMachine Function

inductive EndOp
  | push (node : Addr) (value : Word)
  | pop
  deriving DecidableEq, Repr

structure Client where
  heap : Heap
  ret : Word

def Client.after {α : Type} (action : CellM α) (client : Client) (store : α → Word) : Option Client :=
  match action client.heap with
  | .ok (value, heap) => some ⟨heap, store value⟩
  | .error _ => none

theorem Client.after_ok {α : Type} {action : CellM α} {client next : Client} {store : α → Word}
    (ran : client.after action store = some next) :
    ∃ value, action client.heap = .ok (value, next.heap) ∧ next.ret = store value := by
  rw [Client.after] at ran
  split at ran
  · rename_i value heap result
    obtain rfl : (⟨heap, store value⟩ : Client) = next := Option.some.inj ran
    exact ⟨value, result, rfl⟩
  · simp at ran

def endStep (kind : Kind) (l : Addr) (client : Client) : EndOp → Option Client
  | .push node value => client.after (kind.push l node value) fun _ => client.ret
  | .pop => client.after (kind.pop l client.ret) id

/-- First in, first out for the queue and the list, last in, first out for the stack: removals
take the front, and this is where an addition goes. -/
def Kind.join {α : Type} : Kind → α → List α → List α
  | .linkList, item, items => items ++ [item]
  | .queue, item, items => items ++ [item]
  | .stack, item, items => item :: items

structure Sequence where
  items : List Word
  ret : Word
  deriving DecidableEq, Repr

def sequenceStep (kind : Kind) (sequence : Sequence) : EndOp → Sequence
  | .push _ value => { sequence with items := kind.join value sequence.items }
  | .pop =>
      match sequence.items with
      | [] => sequence
      | value :: rest => ⟨rest, value⟩

structure Represents (l : Addr) (client : Client) (sequence : Sequence) (nodes : List Addr) : Prop where
  holds : Holds client.heap l nodes
  values : nodes.map client.heap.word = sequence.items
  ret : client.ret = sequence.ret
  count : (client.heap.word l).toInt = sequence.items.length

theorem Kind.add_run (kind : Kind) {heap : Heap} {l : Addr} (free : heap.Free l) :
    (kind.add l : CellM Unit) heap = .ok ((), heap.make l 0) := by
  cases kind <;> exact addContainer_run free

theorem Kind.push_run (kind : Kind) {heap : Heap} {l node : Addr} {nodes : List Addr} (value : Word)
    (holds : Holds heap l nodes) (free : heap.Free node) :
    ∃ after, (kind.push l node value : CellM Unit) heap = .ok ((), after) ∧
      Holds after l (kind.join node nodes) ∧
      after.word = update (update heap.word node value) l (heap.word l + 1) := by
  cases kind with
  | linkList =>
      obtain ⟨after, ran, holdsAfter, word, -⟩ := holds.pushBack value free
      exact ⟨after, ran, holdsAfter, word⟩
  | queue =>
      obtain ⟨after, ran, holdsAfter, word, -⟩ := holds.pushBack value free
      exact ⟨after, ran, holdsAfter, word⟩
  | stack =>
      obtain ⟨after, ran, holdsAfter, word, -⟩ := holds.pushFront value free
      exact ⟨after, ran, holdsAfter, word⟩

theorem Kind.push_free (kind : Kind) {heap : Heap} {l node : Addr} {value : Word} {result : Unit × Heap}
    (ran : (kind.push l node value : CellM Unit) heap = .ok result) : heap.Free node := by
  cases kind <;> exact pushWith_free ran

theorem Kind.pop_vacant (kind : Kind) {heap : Heap} {l : Addr} (ret : Word) (holds : Holds heap l []) :
    (kind.pop l ret : CellM Word) heap = .ok (ret, heap) := by
  cases kind with
  | linkList => exact holds.linkListPop_vacant ret (.inr rfl)
  | queue => exact holds.takeFirst_vacant ret (.inr rfl)
  | stack => exact holds.takeFirst_vacant ret (.inr rfl)

theorem Kind.pop_cons (kind : Kind) {heap : Heap} {l node : Addr} {rest : List Addr} (ret : Word)
    (holds : Holds heap l (node :: rest)) (counted : heap.word l ≠ 0) :
    ∃ after, (kind.pop l ret : CellM Word) heap = .ok (heap.word node, after) ∧
      Popped heap after l node rest := by
  cases kind with
  | linkList => exact holds.linkListPop_cons ret counted
  | queue => exact holds.takeFirst_cons ret counted
  | stack => exact holds.takeFirst_cons ret counted

theorem Kind.len_run (kind : Kind) {heap : Heap} {l : Addr} (live : heap.live l = true) :
    (kind.len l : CellM Word) heap = .ok (heap.word l, heap) := by
  cases kind <;> exact readWord_run live

theorem Kind.map_join {α β : Type} (kind : Kind) (f : α → β) (item : α) (items : List α) :
    (kind.join item items).map f = kind.join (f item) (items.map f) := by
  cases kind <;> simp [Kind.join]

theorem Kind.length_join {α : Type} (kind : Kind) (item : α) (items : List α) :
    (kind.join item items).length = items.length + 1 := by
  cases kind <;> simp [Kind.join]

theorem Holds.map_word {heap : Heap} {l : Addr} {nodes : List Addr} {word : Addr → Word}
    (holds : Holds heap l nodes) (same : ∀ addr, addr ≠ l → heap.live addr = true →
      word addr = heap.word addr) : nodes.map word = nodes.map heap.word := by
  apply List.map_congr_left
  intro addr member
  have different : addr ≠ l := by
    rintro rfl
    exact (List.nodup_cons.mp holds.ring.nodup).1 member
  exact same addr different (holds.live addr (List.mem_cons_of_mem _ member))

theorem Holds.map_word_fresh {heap : Heap} {l node : Addr} {nodes : List Addr} {word : Addr → Word}
    (holds : Holds heap l nodes) (free : heap.Free node)
    (same : ∀ addr, addr ≠ l → addr ≠ node → word addr = heap.word addr) :
    nodes.map word = nodes.map heap.word := by
  refine holds.map_word ?_
  intro addr notHead live
  have notNode : addr ≠ node := by
    rintro rfl
    exact Bool.false_ne_true (free.1.symm.trans live)
  exact same addr notHead notNode

section Steps

variable {kind : Kind} {l : Addr} {client : Client} {sequence : Sequence} {nodes : List Addr}

theorem Represents.length_eq (represents : Represents l client sequence nodes) :
    sequence.items.length = nodes.length := by
  rw [← represents.values, List.length_map]

theorem Represents.push {node : Addr} (represents : Represents l client sequence nodes) (kind : Kind)
    (free : client.heap.Free node) (value : Word)
    (room : sequence.items.length + 1 < 2147483648) :
    ∃ next, endStep kind l client (.push node value) = some next ∧
      Represents l next (sequenceStep kind sequence (.push node value)) (kind.join node nodes) := by
  obtain ⟨after, ran, holdsAfter, word⟩ := kind.push_run value represents.holds free
  have different : node ≠ l := fun same => represents.holds.free_notMem free (by simp [same])
  refine ⟨⟨after, client.ret⟩, ?_, holdsAfter, ?_, represents.ret, ?_⟩
  · rw [endStep, Client.after, ran]
  · have others : nodes.map after.word = nodes.map client.heap.word := by
      refine represents.holds.map_word_fresh free ?_
      intro addr notHead notNode
      rw [word, update_of_ne notHead, update_of_ne notNode]
    have own : after.word node = value := by rw [word, update_of_ne different, update_self]
    rw [kind.map_join, others, own, represents.values, sequenceStep]
  · have counter : after.word l = client.heap.word l + 1 := by rw [word, update_self]
    rw [sequenceStep, kind.length_join, counter]
    exact toInt_succ represents.count room

theorem Represents.pop_empty (represents : Represents l client sequence nodes) (kind : Kind)
    (empty : sequence.items = []) : endStep kind l client .pop = some client := by
  have none : nodes = [] := by
    have length := represents.length_eq
    rw [empty] at length
    exact List.eq_nil_of_length_eq_zero length.symm
  subst none
  rw [endStep, Client.after, kind.pop_vacant client.ret represents.holds]
  rfl

theorem Represents.pop (represents : Represents l client sequence nodes) (kind : Kind) :
    ∃ next, endStep kind l client .pop = some next ∧
      Represents l next (sequenceStep kind sequence .pop) nodes.tail := by
  have values := represents.values
  have count := represents.count
  cases nodes with
  | nil =>
      have empty : sequence.items = [] := values.symm
      refine ⟨client, represents.pop_empty kind empty, ?_⟩
      simpa [sequenceStep, empty] using represents
  | cons node rest =>
      have items : sequence.items = client.heap.word node :: rest.map client.heap.word := values.symm
      rw [items, List.length_cons] at count
      obtain ⟨after, ran, popped⟩ :=
        kind.pop_cons client.ret represents.holds (count_ne_zero count)
      refine ⟨⟨after, client.heap.word node⟩, ?_, ?_⟩
      · rw [endStep, Client.after, ran]
        rfl
      · rw [sequenceStep, items]
        refine ⟨popped.holds, ?_, rfl, ?_⟩
        · refine (popped.holds.map_word ?_).symm
          intro addr notHead _
          rw [popped.word, update_of_ne notHead]
        · have counter : after.word l = client.heap.word l - 1 := by rw [popped.word, update_self]
          rw [counter]
          exact toInt_pred count

theorem Represents.step {op : EndOp} {next : Client} (represents : Represents l client sequence nodes)
    (room : sequence.items.length + 1 < 2147483648)
    (stepped : endStep kind l client op = some next) :
    ∃ nodes', Represents l next (sequenceStep kind sequence op) nodes' := by
  cases op with
  | push node value =>
      obtain ⟨_, accepted, -⟩ := Client.after_ok stepped
      obtain ⟨other, pushed, related⟩ :=
        represents.push kind (kind.push_free accepted) value room
      obtain rfl : other = next := Option.some.inj (pushed.symm.trans stepped)
      exact ⟨_, related⟩
  | pop =>
      obtain ⟨other, popped, related⟩ := represents.pop kind
      obtain rfl : other = next := Option.some.inj (popped.symm.trans stepped)
      exact ⟨_, related⟩

end Steps

theorem sequenceStep_length (kind : Kind) (sequence : Sequence) (op : EndOp) :
    (sequenceStep kind sequence op).items.length ≤ sequence.items.length + 1 := by
  cases op with
  | push node value => rw [sequenceStep, kind.length_join]
  | pop =>
      rw [sequenceStep]
      split
      · omega
      · rename_i value rest items
        rw [items, List.length_cons]
        exact Nat.le_add_right rest.length 2

theorem Represents.run {kind : Kind} {l : Addr} {client final : Client} {sequence : Sequence}
    {nodes : List Addr} {ops : List EndOp} (represents : Represents l client sequence nodes)
    (few : sequence.items.length + ops.length < 2147483648)
    (ran : run (endStep kind l) client ops = some final) :
    ∃ nodes', Represents l final (ops.foldl (sequenceStep kind) sequence) nodes' := by
  induction ops generalizing client sequence nodes with
  | nil =>
      simp only [run_nil, Option.some.injEq] at ran
      exact ⟨nodes, ran ▸ represents⟩
  | cons op rest ih =>
      obtain ⟨next, stepped, remaining⟩ := run_cons_some ran
      simp only [List.length_cons] at few
      obtain ⟨nodes', related⟩ := represents.step (by omega) stepped
      have longer := sequenceStep_length kind sequence op
      exact ih related (by omega) remaining

/-- Every run of fewer than 2^31 operations from a fresh container follows the abstract
sequence, and none of its operations can fault. -/
theorem container_refines_sequence (kind : Kind) (heap : Heap) (l : Addr) (ret : Word)
    (sane : heap.Sane) (free : heap.Free l) :
    ∃ start, (kind.add l : CellM Unit) heap = .ok ((), start) ∧
      ∀ ops final, ops.length < 2147483648 → run (endStep kind l) ⟨start, ret⟩ ops = some final →
        let sequence := ops.foldl (sequenceStep kind) ⟨[], ret⟩
        (∃ nodes, Represents l final sequence nodes) ∧
          (∃ count, (kind.len l : CellM Word) final.heap = .ok (count, final.heap) ∧
            count.toInt = sequence.items.length) ∧
          (sequence.items = [] → endStep kind l final .pop = some final) ∧
          (∃ next, endStep kind l final .pop = some next) ∧
          ∀ node value, final.heap.Free node →
            ∃ next, endStep kind l final (.push node value) = some next := by
  refine ⟨heap.make l 0, kind.add_run free, ?_⟩
  intro ops final few ran sequence
  have initial : Represents l ⟨heap.make l 0, ret⟩ ⟨[], ret⟩ [] :=
    ⟨Holds.fresh sane 0 free, rfl, rfl, by simp⟩
  obtain ⟨nodes, represents⟩ := initial.run (by simpa using few) ran
  refine ⟨⟨nodes, represents⟩, ?_, represents.pop_empty kind, ?_, ?_⟩
  · exact ⟨_, kind.len_run represents.holds.headLive, represents.count⟩
  · obtain ⟨next, popped, -⟩ := represents.pop kind
    exact ⟨next, popped⟩
  · intro node value placed
    obtain ⟨after, pushed, -⟩ := kind.push_run value represents.holds placed
    refine ⟨⟨after, final.ret⟩, ?_⟩
    rw [endStep, Client.after, pushed]

def vacantHeap : Heap := ⟨id, id, fun _ => 0, fun _ => false⟩

theorem container_refines_sequence_stackOfTwo : ∃ start final,
    (Kind.stack.add 4096 : CellM Unit) vacantHeap = .ok ((), start) ∧
      run (endStep .stack 4096) ⟨start, 0⟩ [.push 8192 7, .push 12288 9, .pop] = some final ∧
      ∃ nodes, Represents 4096 final ⟨[7], 9⟩ nodes := by
  obtain ⟨start, made, refines⟩ := container_refines_sequence .stack vacantHeap 4096 0
    ⟨rfl, rfl, rfl⟩ (by decide)
  obtain rfl : start = vacantHeap.make 4096 0 := (ok_unique made (Kind.stack.add_run (by decide))).2
  obtain ⟨final, ran⟩ := Option.isSome_iff_exists.mp (by decide :
    (run (endStep .stack 4096) ⟨vacantHeap.make 4096 0, 0⟩
      [.push 8192 7, .push 12288 9, .pop]).isSome = true)
  exact ⟨_, final, made, ran, (refines _ final (by decide) ran).1⟩

end LearnK.Container
