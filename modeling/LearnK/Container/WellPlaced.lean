import LearnK.Container.Footprint
import LearnK.Container.Slots

/-! Runs on byte memory whose allocations are all made in slots, against the runs on whole
structs and against the abstract sequence. -/

namespace LearnK.Container

open ByteMemory FaultM StepMachine Function ListMemory

def EndOp.onWorld (kind : Kind) (l : Addr) : EndOp → WorldOp
  | .push node value => .push kind l node value
  | .pop => .pop kind l

def EndOp.InSlot (slots : Slots) : EndOp → Prop
  | .push node _ => slots.Slot node
  | .pop => True

structure Backs (slots : Slots) (kind : Kind) (l : Addr) (client : Client) (world : World) : Prop where
  mirrors : Mirrors slots client.heap world.heap
  ret : world.ret = client.ret
  known : (kind, l) ∈ world.containers

section Steps

variable {slots : Slots} {kind : Kind} {l : Addr} {client next : Client} {world : World}

theorem Backs.callOn {α : Type} {action : CellM α} {action' : ByteM α} {store : α → Word}
    (backs : Backs slots kind l client world) (simulates : Simulates (Mirrors slots) action action')
    (called : client.after action store = some next) :
    ∃ next', world.callOn kind l action' store = some next' ∧ Backs slots kind l next next' := by
  obtain ⟨value, ran, ret⟩ := Client.after_ok called
  obtain ⟨heap, matched, mirrors⟩ := simulates _ _ _ _ backs.mirrors ran
  refine ⟨{ world with heap := heap, ret := store value }, ?_, mirrors, ret.symm, backs.known⟩
  rw [World.callOn, if_pos backs.known, World.call, matched]

theorem endStep_backed {op : EndOp} (backs : Backs slots kind l client world)
    (placed : op.InSlot slots) (stepped : endStep kind l client op = some next) :
    ∃ next', worldStep world (op.onWorld kind l) = some next' ∧ Backs slots kind l next next' := by
  have closed := mirrors_closed slots
  cases op with
  | push node value =>
      rw [EndOp.onWorld, worldStep, backs.ret]
      exact backs.callOn (closed.push kind l node value placed) stepped
  | pop =>
      rw [EndOp.onWorld, worldStep, backs.ret]
      exact backs.callOn (closed.pop kind l client.ret) stepped

theorem addNode_vacant {node : Addr} {value : Word} {bytes : ByteHeap} {result : Unit × ByteHeap}
    (ran : (addNode node value : ByteM Unit) bytes = .ok result) :
    bytes.Vacant node.toNat sizeofPointer := by
  obtain ⟨_, _, allocated, -⟩ := bind_ok ran
  by_contra taken
  simp [kmalloc, allocateStruct, allocate, taken, Except.map] at allocated

theorem Kind.push_vacant (kind : Kind) {node : Addr} {value : Word} {bytes : ByteHeap}
    {result : Unit × ByteHeap} (ran : (kind.push l node value : ByteM Unit) bytes = .ok result) :
    bytes.Vacant node.toNat sizeofPointer := by
  cases kind <;>
  · obtain ⟨_, _, added, -⟩ := bind_ok ran
    exact addNode_vacant added

theorem Backs.enabled {sequence : Sequence} {nodes : List Addr} {op : EndOp} {next' : World}
    (backs : Backs slots kind l client world) (represents : Represents l client sequence nodes)
    (placed : op.InSlot slots) (stepped : worldStep world (op.onWorld kind l) = some next') :
    ∃ next, endStep kind l client op = some next := by
  cases op with
  | push node value =>
      obtain ⟨-, called⟩ := World.callOn_some stepped
      obtain ⟨_, ran, -⟩ := World.call_some called
      have free := (backs.mirrors.vacant_iff_free placed).mp (kind.push_vacant ran)
      obtain ⟨after, pushed, -⟩ := kind.push_run value represents.holds free
      exact ⟨⟨after, client.ret⟩, by rw [endStep, Client.after, pushed]⟩
  | pop =>
      obtain ⟨next, popped, -⟩ := represents.pop kind
      exact ⟨next, popped⟩

theorem Backs.follows {sequence : Sequence} {nodes : List Addr} {ops : List EndOp}
    {final' : World} (backs : Backs slots kind l client world)
    (represents : Represents l client sequence nodes) (placed : ∀ op ∈ ops, op.InSlot slots)
    (few : sequence.items.length + ops.length < 2147483648)
    (ran : run worldStep world (ops.map (EndOp.onWorld kind l)) = some final') :
    ∃ final nodes', Backs slots kind l final final' ∧
      Represents l final (ops.foldl (sequenceStep kind) sequence) nodes' := by
  induction ops generalizing client world sequence nodes with
  | nil =>
      obtain rfl : world = final' := Option.some.inj ran
      exact ⟨client, nodes, backs, represents⟩
  | cons op rest ih =>
      obtain ⟨next', stepped, remaining⟩ := run_cons_some ran
      have here := placed op (by simp)
      obtain ⟨next, follows⟩ := backs.enabled represents here stepped
      obtain ⟨other, matched, backsNext⟩ := endStep_backed backs here follows
      obtain rfl : other = next' := Option.some.inj (matched.symm.trans stepped)
      simp only [List.length_cons] at few
      obtain ⟨nodes', related⟩ := represents.step (by omega) follows
      have longer := sequenceStep_length kind sequence op
      exact ih backsNext related (fun later member => placed later (by simp [member]))
        (by omega) remaining

end Steps

theorem Mirrors.sane {slots : Slots} {cells : Heap} {bytes : ByteHeap}
    (mirrors : Mirrors slots cells bytes) : cells.Sane := by
  have dead (addr : Addr) (bad : addr = 0 ∨ addr = listPoison1 ∨ addr = listPoison2) :
      cells.live addr = false := by
    by_contra alive
    obtain ⟨notNull, notPoison1, notPoison2⟩ :=
      slots.sane addr (mirrors.slotted addr (Bool.not_eq_false _ ▸ alive))
    rcases bad with null | poison1 | poison2
    · exact notNull null
    · exact notPoison1 poison1
    · exact notPoison2 poison2
  exact ⟨dead 0 (by simp), dead _ (by simp), dead _ (by simp)⟩

end LearnK.Container
