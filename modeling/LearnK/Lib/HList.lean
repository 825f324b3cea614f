import Mathlib.Logic.Function.Basic
import Mathlib.Data.List.Nodup

/-! Lists whose head is a single pointer and whose nodes point back at the pointer that leads to
them, over arbitrary heads and nodes.  Adding at a head and deleting anywhere are updates of two
or three pointers. -/

namespace HList

inductive Slot (Head Node : Type*)
  | first (head : Head)
  | next (node : Node)
  deriving DecidableEq

structure Links (Head Node : Type*) where
  first : Head → Option Node
  next : Node → Option Node
  pprev : Node → Option (Slot Head Node)

variable {Head Node : Type*}

def Links.empty : Links Head Node := ⟨fun _ => none, fun _ => none, fun _ => none⟩

def Links.read (links : Links Head Node) : Slot Head Node → Option Node
  | .first head => links.first head
  | .next node => links.next node

/-- The pointer in `slot` leads to these nodes, one after the other. -/
def Chain (links : Links Head Node) : Slot Head Node → List Node → Prop
  | slot, [] => links.read slot = none
  | slot, node :: rest =>
      links.read slot = some node ∧ links.pprev node = some slot ∧ Chain links (.next node) rest

variable {links links' : Links Head Node} {slot : Slot Head Node} {node : Node} {nodes : List Node}

theorem Chain.read_eq (chain : Chain links slot nodes) : links.read slot = nodes.head? := by
  cases nodes with
  | nil => exact chain
  | cons node rest => exact chain.1

theorem Chain.congr (chain : Chain links slot nodes) (start : links'.read slot = links.read slot)
    (next : ∀ node ∈ nodes, links'.read (.next node) = links.read (.next node))
    (pprev : ∀ node ∈ nodes, links'.pprev node = links.pprev node) : Chain links' slot nodes := by
  induction nodes generalizing slot with
  | nil => exact start.trans chain
  | cons node rest ih =>
      obtain ⟨here, back, later⟩ := chain
      refine ⟨start.trans here, (pprev node (by simp)).trans back, ?_⟩
      exact ih later (next node (by simp)) (fun other member => next other (by simp [member]))
        (fun other member => pprev other (by simp [member]))

theorem Chain.pprev_of_mem (chain : Chain links slot nodes) (member : node ∈ nodes) :
    links.pprev node = some slot ∨ ∃ before ∈ nodes, links.pprev node = some (.next before) := by
  induction nodes generalizing slot with
  | nil => simp at member
  | cons first rest ih =>
      obtain ⟨-, back, later⟩ := chain
      rcases List.mem_cons.mp member with rfl | member
      · exact .inl back
      · rcases ih later member with direct | ⟨before, among, found⟩
        · exact .inr ⟨first, by simp, direct⟩
        · exact .inr ⟨before, by simp [among], found⟩

theorem Chain.next_of_mem {after : Node} (chain : Chain links slot nodes) (member : node ∈ nodes)
    (next : links.next node = some after) : after ∈ nodes.tail := by
  induction nodes generalizing slot with
  | nil => simp at member
  | cons first rest ih =>
      obtain ⟨-, -, later⟩ := chain
      rcases List.mem_cons.mp member with rfl | member
      · have lead : links.read (.next node) = some after := next
        rw [later.read_eq] at lead
        exact List.mem_of_head? lead
      · exact List.mem_of_mem_tail (ih later member)

variable [DecidableEq Node]

def Links.setPprev (links : Links Head Node) (target : Option Node)
    (slot : Option (Slot Head Node)) : Links Head Node :=
  match target with
  | none => links
  | some node => { links with pprev := Function.update links.pprev node slot }

@[simp] theorem Links.read_setPprev (links : Links Head Node) (target : Option Node)
    (back : Option (Slot Head Node)) (slot : Slot Head Node) :
    (links.setPprev target back).read slot = links.read slot := by
  cases target <;> cases slot <;> rfl

theorem Links.pprev_setPprev (links : Links Head Node) (target : Option Node)
    (back : Option (Slot Head Node)) (node : Node) :
    (links.setPprev target back).pprev node =
      if target = some node then back else links.pprev node := by
  cases target with
  | none => simp [Links.setPprev]
  | some other => simp [Links.setPprev, Function.update_apply, eq_comm]

variable [DecidableEq Head]

def Links.write (links : Links Head Node) (slot : Slot Head Node) (target : Option Node) :
    Links Head Node :=
  match slot with
  | .first head => { links with first := Function.update links.first head target }
  | .next node => { links with next := Function.update links.next node target }

def Links.addHead (links : Links Head Node) (node : Node) (head : Head) : Links Head Node :=
  let first := links.first head
  let linked := (links.write (.next node) first).setPprev first (some (.next node))
  (linked.write (.first head) (some node)).setPprev (some node) (some (.first head))

def Links.delInit (links : Links Head Node) (node : Node) : Links Head Node :=
  match links.pprev node with
  | none => links
  | some pprev =>
      let next := links.next node
      let unlinked := (links.write pprev next).setPprev next (some pprev)
      (unlinked.write (.next node) none).setPprev (some node) none

theorem Links.read_write (links : Links Head Node) (slot other : Slot Head Node)
    (target : Option Node) :
    (links.write slot target).read other = if other = slot then target else links.read other := by
  cases slot <;> cases other <;> simp [Links.write, Links.read, Function.update_apply]

@[simp] theorem Links.pprev_write (links : Links Head Node) (slot : Slot Head Node)
    (target : Option Node) : (links.write slot target).pprev = links.pprev := by
  cases slot <;> rfl

theorem Links.read_addHead (links : Links Head Node) (node : Node) (head : Head)
    (slot : Slot Head Node) :
    (links.addHead node head).read slot =
      if slot = .first head then some node
      else if slot = .next node then links.first head else links.read slot := by
  simp only [Links.addHead, Links.read_setPprev, Links.read_write]

theorem Links.pprev_addHead (links : Links Head Node) (node other : Node) (head : Head) :
    (links.addHead node head).pprev other =
      if some node = some other then some (.first head)
      else if links.first head = some other then some (.next node) else links.pprev other := by
  simp only [Links.addHead, Links.pprev_setPprev, Links.pprev_write]

theorem Links.read_delInit {links : Links Head Node} {node : Node} {pprev : Slot Head Node}
    (back : links.pprev node = some pprev) (slot : Slot Head Node) :
    (links.delInit node).read slot =
      if slot = .next node then none
      else if slot = pprev then links.next node else links.read slot := by
  simp only [Links.delInit, back, Links.read_setPprev, Links.read_write]

theorem Links.pprev_delInit {links : Links Head Node} {node : Node} {pprev : Slot Head Node}
    (back : links.pprev node = some pprev) (other : Node) :
    (links.delInit node).pprev other =
      if some node = some other then none
      else if links.next node = some other then some pprev else links.pprev other := by
  simp only [Links.delInit, back, Links.pprev_setPprev, Links.pprev_write]

theorem Chain.addHead {head : Head} (chain : Chain links (.first head) nodes)
    (fresh : node ∉ nodes) (nodup : nodes.Nodup) :
    Chain (links.addHead node head) (.first head) (node :: nodes) := by
  refine ⟨by simp [Links.read_addHead], by simp [Links.pprev_addHead], ?_⟩
  have lead : links.first head = nodes.head? := chain.read_eq
  cases nodes with
  | nil => simpa [Chain, Links.read_addHead] using lead
  | cons first rest =>
      obtain ⟨-, -, later⟩ := chain
      obtain ⟨apart, -⟩ := List.nodup_cons.mp nodup
      simp only [List.mem_cons, not_or] at fresh
      refine ⟨?_, ?_, later.congr ?_ ?_ ?_⟩
      · simpa [Links.read_addHead] using lead
      · simp [Links.pprev_addHead, fresh.1, lead]
      · simp [Links.read_addHead, Ne.symm fresh.1]
      · intro other member
        have notNew : other ≠ node := fun same => fresh.2 (same ▸ member)
        simp [Links.read_addHead, notNew]
      · intro other member
        have notNew : node ≠ other := fun same => fresh.2 (same ▸ member)
        have notFirst : first ≠ other := fun same => apart (same ▸ member)
        simp [Links.pprev_addHead, notNew, lead, notFirst]

theorem Chain.addHead_other {head other : Head} {others : List Node}
    (chain : Chain links (.first head) nodes) (kept : Chain links (.first other) others)
    (apart : other ≠ head) (fresh : node ∉ others) (disjoint : ∀ found ∈ others, found ∉ nodes) :
    Chain (links.addHead node head) (.first other) others := by
  refine kept.congr (by simp [Links.read_addHead, apart]) ?_ ?_
  · intro found member
    have notNew : found ≠ node := fun same => fresh (same ▸ member)
    simp [Links.read_addHead, notNew]
  · intro found member
    have notNew : node ≠ found := fun same => fresh (same ▸ member)
    have notFirst : links.first head ≠ some found := by
      intro first
      have lead : links.first head = nodes.head? := chain.read_eq
      exact disjoint found member (List.mem_of_head? (lead.symm.trans first))
    simp [Links.pprev_addHead, notNew, notFirst]

theorem Chain.delInit {before after : List Node}
    (chain : Chain links slot (before ++ node :: after)) (nodup : (before ++ node :: after).Nodup)
    (outside : ∀ found ∈ before ++ node :: after, slot ≠ .next found) :
    Chain (links.delInit node) slot (before ++ after) := by
  induction before generalizing slot with
  | nil =>
      obtain ⟨-, back, later⟩ := chain
      obtain ⟨apart, nodup⟩ := List.nodup_cons.mp nodup
      have notNode : slot ≠ .next node := outside node (by simp)
      have lead : links.next node = after.head? := later.read_eq
      cases after with
      | nil => simp [Chain, Links.read_delInit back, notNode, lead]
      | cons first rest =>
          obtain ⟨-, -, later⟩ := later
          obtain ⟨notFirst, -⟩ := List.nodup_cons.mp nodup
          simp only [List.mem_cons, not_or] at apart
          refine ⟨?_, ?_, later.congr ?_ ?_ ?_⟩
          · simp [Links.read_delInit back, notNode, lead]
          · simp [Links.pprev_delInit back, apart.1, lead]
          · have notSlot := outside first (by simp)
            simp [Links.read_delInit back, Ne.symm apart.1, Ne.symm notSlot]
          · intro other member
            have notSlot := outside other (by simp [member])
            have notSame : other ≠ node := fun same => apart.2 (same ▸ member)
            simp [Links.read_delInit back, notSame, Ne.symm notSlot]
          · intro other member
            have notSame : node ≠ other := fun same => apart.2 (same ▸ member)
            have notNext : first ≠ other := fun same => notFirst (same ▸ member)
            simp [Links.pprev_delInit back, notSame, lead, notNext]
  | cons first before ih =>
      obtain ⟨here, back, later⟩ := chain
      obtain ⟨apart, nodup⟩ := List.nodup_cons.mp nodup
      have inside : node ∈ before ++ node :: after := by simp
      have notNode : node ≠ first := fun same => apart (same ▸ inside)
      have rest := ih later nodup fun found member same => apart (Slot.next.inj same ▸ member)
      obtain ⟨pprev, own, elsewhere⟩ : ∃ pprev, links.pprev node = some pprev ∧ pprev ≠ slot := by
        rcases later.pprev_of_mem inside with direct | ⟨earlier, member, found⟩
        · exact ⟨_, direct, (outside first (by simp)).symm⟩
        · exact ⟨_, found, (outside earlier (List.mem_cons_of_mem _ member)).symm⟩
      have notNext : links.next node ≠ some first := by
        intro next
        exact apart (List.mem_of_mem_tail (later.next_of_mem inside next))
      refine ⟨?_, ?_, rest⟩
      · have notOwn := outside node (List.mem_cons_of_mem _ inside)
        simp [Links.read_delInit own, notOwn, Ne.symm elsewhere, here]
      · simp [Links.pprev_delInit own, notNode, notNext, back]

theorem Chain.delInit_other {head other : Head} {others : List Node}
    (chain : Chain links (.first head) nodes) (member : node ∈ nodes)
    (kept : Chain links (.first other) others) (apart : other ≠ head)
    (disjoint : ∀ found ∈ others, found ∉ nodes) :
    Chain (links.delInit node) (.first other) others := by
  obtain ⟨pprev, own, notHead, notNext⟩ : ∃ pprev, links.pprev node = some pprev ∧
      pprev ≠ .first other ∧ ∀ found ∈ others, pprev ≠ .next found := by
    rcases chain.pprev_of_mem member with direct | ⟨before, among, found⟩
    · exact ⟨_, direct, by simp [Ne.symm apart], by simp⟩
    · refine ⟨_, found, by simp, fun met there same => ?_⟩
      exact disjoint met there (Slot.next.inj same ▸ among)
  refine kept.congr ?_ ?_ ?_
  · simp [Links.read_delInit own, Ne.symm notHead]
  · intro found there
    have notNode : found ≠ node := fun same => disjoint found there (same ▸ member)
    simp [Links.read_delInit own, notNode, Ne.symm (notNext found there)]
  · intro found there
    have notNode : node ≠ found := fun same => disjoint found there (same ▸ member)
    have notAfter : links.next node ≠ some found := by
      intro next
      exact disjoint found there (List.mem_of_mem_tail (chain.next_of_mem member next))
    simp [Links.pprev_delInit own, notNode, notAfter]

end HList
