import LearnK.Container.Core

/-! The container functions run on any memory.  A relation between the programs of two memories
that the memory operations respect and sequencing keeps relates every container function to
itself. -/

namespace LearnK.Container

open ListMemory

variable {m n : Type → Type} [Monad m] [Monad n] [ListMemory m] [ListMemory n]

/-- New structs are only related where `Allowed`, whole: with their fields set. -/
structure Closed (Allowed : Addr → Prop) (Relation : (α : Type) → m α → n α → Prop) : Prop where
  pure {α : Type} (value : α) : Relation _ (Pure.pure value) (Pure.pure value)
  bind {α β : Type} {action : m α} {action' : n α} {rest : α → m β} {rest' : α → n β}
    (first : Relation _ action action') (second : ∀ value, Relation _ (rest value) (rest' value)) :
    Relation _ (action >>= rest) (action' >>= rest')
  readNext (addr : Addr) : Relation _ (readNext addr) (readNext addr)
  readPrev (addr : Addr) : Relation _ (readPrev addr) (readPrev addr)
  readWord (addr : Addr) : Relation _ (readWord addr) (readWord addr)
  writeNext (addr value : Addr) : Relation _ (writeNext addr value) (writeNext addr value)
  writePrev (addr value : Addr) : Relation _ (writePrev addr value) (writePrev addr value)
  writeWord (addr : Addr) (value : Word) : Relation _ (writeWord addr value) (writeWord addr value)
  addNode (node : Addr) (value : Word) (allowed : Allowed node) :
    Relation _ (addNode node value) (addNode node value)
  kfree (addr : Addr) : Relation _ (kfree addr) (kfree addr)
  fault (reason : Fault) : Relation _ (fault reason) (fault reason)

variable {Allowed : Addr → Prop} {Relation : (α : Type) → m α → n α → Prop}

theorem Closed.ite (_ : Closed Allowed Relation) {α : Type} {condition : Prop} [Decidable condition]
    {yes no : m α} {yes' no' : n α} (first : Relation _ yes yes') (second : Relation _ no no') :
    Relation _ (if condition then yes else no) (if condition then yes' else no') := by
  by_cases holds : condition
  · rw [if_pos holds, if_pos holds]
    exact first
  · rw [if_neg holds, if_neg holds]
    exact second

variable (closed : Closed Allowed Relation)

include closed

theorem Closed.listAddBetween (new prev next : Addr) :
    Relation _ (listAddBetween new prev next) (listAddBetween new prev next) := by
  refine closed.bind (closed.writePrev _ _) fun _ => ?_
  refine closed.bind (closed.writeNext _ _) fun _ => ?_
  refine closed.bind (closed.writePrev _ _) fun _ => ?_
  exact closed.writeNext _ _

theorem Closed.listAdd (new head : Addr) : Relation _ (listAdd new head) (listAdd new head) := by
  refine closed.bind (closed.readNext _) fun _ => ?_
  exact closed.listAddBetween _ _ _

theorem Closed.listAddTail (new head : Addr) :
    Relation _ (listAddTail new head) (listAddTail new head) := by
  refine closed.bind (closed.readPrev _) fun _ => ?_
  exact closed.listAddBetween _ _ _

theorem Closed.listDel (entry : Addr) : Relation _ (listDel entry) (listDel entry) := by
  refine closed.bind (closed.readPrev _) fun _ => ?_
  refine closed.bind (closed.readNext _) fun _ => ?_
  refine closed.bind (closed.writePrev _ _) fun _ => ?_
  refine closed.bind (closed.writeNext _ _) fun _ => ?_
  refine closed.bind (closed.writeNext _ _) fun _ => ?_
  exact closed.writePrev _ _

theorem Closed.pushWith {add : Addr → Addr → m Unit} {add' : Addr → Addr → n Unit}
    (adds : ∀ new head, Relation _ (add new head) (add' new head)) (container node : Addr)
    (value : Word) (allowed : Allowed node) :
    Relation _ (pushWith add container node value) (pushWith add' container node value) := by
  refine closed.bind (closed.addNode _ _ allowed) fun _ => ?_
  refine closed.bind (adds _ _) fun _ => ?_
  refine closed.bind (closed.readWord _) fun _ => ?_
  exact closed.writeWord _ _

theorem Closed.isVacant (container : Addr) :
    Relation _ (isVacant container) (isVacant container) := by
  refine closed.bind (closed.readWord _) fun _ => ?_
  refine closed.ite (closed.pure _) ?_
  refine closed.bind (closed.readNext _) fun _ => ?_
  exact closed.pure _

theorem Closed.linkListPop (l : Addr) (ret : Word) :
    Relation _ (linkListPop l ret) (linkListPop l ret) := by
  refine closed.bind (closed.isVacant _) fun _ => ?_
  refine closed.ite (closed.pure _) ?_
  refine closed.bind (closed.readNext _) fun _ => ?_
  refine closed.ite (closed.pure _) ?_
  refine closed.bind (closed.listDel _) fun _ => ?_
  refine closed.bind (closed.readWord _) fun _ => ?_
  refine closed.bind (closed.kfree _) fun _ => ?_
  refine closed.bind (closed.readWord _) fun _ => ?_
  refine closed.bind (closed.writeWord _ _) fun _ => ?_
  exact closed.pure _

theorem Closed.takeFirst (container : Addr) (ret : Word) :
    Relation _ (takeFirst container ret) (takeFirst container ret) := by
  refine closed.bind (closed.isVacant _) fun _ => ?_
  refine closed.ite (closed.pure _) ?_
  refine closed.bind (closed.readNext _) fun _ => ?_
  refine closed.bind (closed.listDel _) fun _ => ?_
  refine closed.bind (closed.readWord _) fun _ => ?_
  refine closed.bind (closed.writeWord _ _) fun _ => ?_
  refine closed.bind (closed.readWord _) fun _ => ?_
  refine closed.bind (closed.kfree _) fun _ => ?_
  exact closed.pure _

theorem Closed.atIndexLoop {act : Addr → m Unit} {act' : Addr → n Unit}
    (acts : ∀ idx, Relation _ (act idx) (act' idx)) (l : Addr) (fuel : Nat) (pos : Addr)
    (index : Word) :
    Relation _ (atIndexLoop l act fuel pos index) (atIndexLoop l act' fuel pos index) := by
  induction fuel generalizing pos index with
  | zero => exact closed.fault _
  | succ fuel ih =>
      refine closed.bind (closed.readNext _) fun _ => ?_
      refine closed.ite (closed.pure _) ?_
      exact closed.ite (acts _) (ih _ _)

theorem Closed.atIndex {act : Addr → m Unit} {act' : Addr → n Unit}
    (acts : ∀ idx, Relation _ (act idx) (act' idx)) (l : Addr) (index : Word) :
    Relation _ (atIndex l index act) (atIndex l index act') := by
  refine closed.bind (closed.isVacant _) fun _ => ?_
  refine closed.ite (closed.pure _) ?_
  refine closed.bind (closed.readWord _) fun _ => ?_
  refine closed.ite (closed.pure _) ?_
  refine closed.bind (closed.readNext _) fun _ => ?_
  exact closed.atIndexLoop acts _ _ _ _

theorem Closed.linkListInsert (l : Addr) (index : Word) (node : Addr) (value : Word)
    (allowed : Allowed node) :
    Relation _ (linkListInsert l index node value) (linkListInsert l index node value) := by
  refine closed.atIndex (fun idx => ?_) l index
  refine closed.bind (closed.addNode _ _ allowed) fun _ => ?_
  exact closed.listAdd _ _

theorem Closed.linkListRemove (l : Addr) (index : Word) :
    Relation _ (linkListRemove l index) (linkListRemove l index) :=
  closed.atIndex (fun idx => closed.listDel idx) l index

theorem Closed.getLoop (l : Addr) (fuel : Nat) (pos : Addr) (index ret : Word) :
    Relation _ (getLoop l fuel pos index ret) (getLoop l fuel pos index ret) := by
  induction fuel generalizing pos index ret with
  | zero =>
      refine closed.bind (closed.fault _) fun _ => ?_
      exact closed.pure _
  | succ fuel ih =>
      refine closed.ite (closed.pure _) ?_
      refine closed.bind (closed.readWord _) fun _ => ?_
      refine closed.ite (closed.pure _) ?_
      refine closed.bind (closed.readNext _) fun _ => ?_
      exact ih _ _ _

theorem Closed.linkListGet (l : Addr) (index ret : Word) :
    Relation _ (linkListGet l index ret) (linkListGet l index ret) := by
  refine closed.bind (closed.isVacant _) fun _ => ?_
  refine closed.ite (closed.pure _) ?_
  refine closed.bind (closed.readWord _) fun _ => ?_
  refine closed.ite (closed.pure _) ?_
  refine closed.bind (closed.readNext _) fun _ => ?_
  exact closed.getLoop _ _ _ _ _

theorem Closed.add (kind : Kind) (container : Addr) (allowed : Allowed container) :
    Relation _ (kind.add container) (kind.add container) := by
  cases kind <;> exact closed.addNode container 0 allowed

theorem Closed.push (kind : Kind) (container node : Addr) (value : Word) (allowed : Allowed node) :
    Relation _ (kind.push container node value) (kind.push container node value) := by
  cases kind with
  | linkList => exact closed.pushWith closed.listAddTail _ _ _ allowed
  | queue => exact closed.pushWith closed.listAddTail _ _ _ allowed
  | stack => exact closed.pushWith closed.listAdd _ _ _ allowed

theorem Closed.pop (kind : Kind) (container : Addr) (ret : Word) :
    Relation _ (kind.pop container ret) (kind.pop container ret) := by
  cases kind with
  | linkList => exact closed.linkListPop _ _
  | queue => exact closed.takeFirst _ _
  | stack => exact closed.takeFirst _ _

end LearnK.Container
