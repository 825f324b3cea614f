import LearnK.Container.LinkList
import LearnK.Container.Recorded

/-! `del_link_list`, `del_queue` and `del_stack` after any run of the container's operations: which of
the nodes that `add_node` made have been freed. -/

namespace LearnK.Container

open FaultM ListMemory StepMachine Function Ledger

section Source

variable {m : Type → Type} [Monad m] [ListMemory m]

def delLoop (l : Addr) : Nat → Addr → m Unit
  | 0, _ => fault .diverges
  | fuel + 1, pos => do
      let idx ← readNext pos
      if pos = l then pure ()
      else do
        listDel pos
        delLoop l fuel idx

def delContainer (fuel : Nat) (container : Addr) : m Unit := do
  let pos ← readNext container
  delLoop container fuel pos
  kfree container

def delLinkList (fuel : Nat) (l : Addr) : m Unit := delContainer fuel l
def delQueue (fuel : Nat) (q : Addr) : m Unit := delContainer fuel q
def delStack (fuel : Nat) (s : Addr) : m Unit := delContainer fuel s

def Kind.del : Kind → Nat → Addr → m Unit
  | .linkList => delLinkList
  | .queue => delQueue
  | .stack => delStack

end Source

theorem Closed.delLoop {m n : Type → Type} [Monad m] [Monad n] [ListMemory m] [ListMemory n]
    {Allowed : Addr → Prop} {Relation : (α : Type) → m α → n α → Prop}
    (closed : Closed Allowed Relation) (l : Addr) (fuel : Nat) (pos : Addr) :
    Relation _ (delLoop l fuel pos) (delLoop l fuel pos) := by
  induction fuel generalizing pos with
  | zero => exact closed.fault _
  | succ fuel ih =>
      refine closed.bind (closed.readNext _) fun _ => ?_
      refine closed.ite (closed.pure _) ?_
      exact closed.bind (closed.listDel _) fun _ => ih _

theorem Closed.del {m n : Type → Type} [Monad m] [Monad n] [ListMemory m] [ListMemory n]
    {Allowed : Addr → Prop} {Relation : (α : Type) → m α → n α → Prop}
    (closed : Closed Allowed Relation) (kind : Kind) (fuel : Nat) (container : Addr) :
    Relation _ (kind.del fuel container) (kind.del fuel container) := by
  have one : Relation _ (delContainer fuel container) (delContainer fuel container) := by
    refine closed.bind (closed.readNext _) fun _ => ?_
    exact closed.bind (closed.delLoop _ _ _) fun _ => closed.kfree _
  cases kind <;> exact one

variable {l : Addr} {nodes : List Addr}

theorem Holds.delLoop_run {heap : Heap} (holds : Holds heap l nodes) {fuel : Nat}
    (enough : nodes.length < fuel) :
    ∃ after, (delLoop l fuel (nodes.headD l) : CellM Unit) heap = .ok ((), after) ∧
      Holds after l [] ∧ after.live = heap.live := by
  induction nodes generalizing heap fuel with
  | nil =>
      obtain ⟨more, rfl⟩ : ∃ more, fuel = more + 1 := ⟨fuel - 1, by omega⟩
      refine ⟨heap, ?_, holds, rfl⟩
      rw [delLoop, List.headD_nil, bind_apply, readNext_run holds.headLive]
      simp [pure_apply]
  | cons node rest ih =>
      rw [List.length_cons] at enough
      obtain ⟨more, rfl⟩ : ∃ more, fuel = more + 1 := ⟨fuel - 1, by omega⟩
      have whole : Holds heap l ([] ++ node :: rest) := holds
      obtain ⟨live, different, link⟩ := whole.next_node
      obtain ⟨unlinked, deleted, holdsUnlinked, -, sameLive⟩ := holds.unlinkFirst
      obtain ⟨after, finished, emptied, keeps⟩ := @ih unlinked holdsUnlinked more (by omega)
      refine ⟨after, ?_, emptied, keeps.trans sameLive⟩
      rw [delLoop, List.headD_cons, bind_apply, readNext_run live, link]
      simp only [different, if_false]
      rw [bind_apply, deleted]
      exact finished

theorem Holds.del_run {heap : Heap} (holds : Holds heap l nodes) (kind : Kind) {fuel : Nat}
    (enough : nodes.length < fuel) :
    ∃ after, (kind.del fuel l : CellM Unit) heap = .ok ((), after) ∧
      after.live = update heap.live l false := by
  have whole : Holds heap l ([] ++ nodes) := holds
  have link : heap.next l = nodes.headD l := whole.ring.link_across.1
  obtain ⟨emptied, looped, holdsEmptied, keeps⟩ := holds.delLoop_run enough
  have ran : (delContainer fuel l : CellM Unit) heap =
      .ok ((), { emptied with live := update emptied.live l false }) := by
    rw [delContainer, bind_apply, readNext_run holds.headLive, link]
    simp only
    rw [bind_apply, looped]
    exact kfree_run holdsEmptied.headLive
  refine ⟨{ emptied with live := update emptied.live l false }, ?_, by rw [keeps]⟩
  cases kind <;> exact ran

inductive Op
  | push (node : Addr) (value : Word)
  | pop
  | len
  | insert (index : Word) (node : Addr) (value : Word)
  | remove (index : Word)
  | get (index : Word)
  deriving DecidableEq, Repr

structure Session where
  state : Recorded
  ret : Word

def Session.after {α : Type} (action : LedgerM α) (session : Session) (store : α → Word) :
    Option Session :=
  match action session.state with
  | .ok (value, state) => some ⟨state, store value⟩
  | .error _ => none

def sessionStep (kind : Kind) (l : Addr) (session : Session) : Op → Option Session
  | .push node value =>
      if session.state.heap.Free node then
        session.after (kind.push l node value) fun _ => session.ret
      else none
  | .pop => session.after (kind.pop l session.ret) id
  | .len => session.after (kind.len l) fun _ => session.ret
  | .insert index node value =>
      if kind = .linkList ∧ session.state.heap.Free node then
        session.after (linkListInsert l index node value) fun _ => session.ret
      else none
  | .remove index =>
      if kind = .linkList then session.after (linkListRemove l index) fun _ => session.ret else none
  | .get index =>
      if kind = .linkList then session.after (linkListGet l index session.ret) id else none

/-- The nodes of the ring and the nodes that were unlinked and dropped are what the run still owns,
beside the container. -/
structure Accounts (base : Addr → Bool) (l : Addr) (state : Recorded) (nodes lost : List Addr) :
    Prop where
  holds : Holds state.heap l nodes
  owned : Owned base state.heap.live (l :: (nodes ++ lost))
  replays : run Ledger.step base state.log = some state.heap.live
  fresh : ∀ block, .alloc block ∈ state.log → base block = false

def Session.WellFormed (l : Addr) (session : Session) : Prop :=
  ∃ nodes, Holds session.state.heap l nodes

def Unlinks (l : Addr) (session : Session) : Op → Prop
  | .remove index => Accepts session.state.heap l index ∧
      ∃ nodes, Holds session.state.heap l nodes ∧ index.toNat + 1 < nodes.length
  | _ => False

/-- What a caller may do with the container: the allocator answers with a free node, and indexed
operations are for a `LinkList`. -/
def Op.Offered (kind : Kind) (session : Session) : Op → Prop
  | .push node _ => session.state.heap.Free node
  | .insert _ node _ => kind = .linkList ∧ session.state.heap.Free node
  | .remove _ => kind = .linkList
  | .get _ => kind = .linkList
  | .pop => True
  | .len => True

section Steps

variable {kind : Kind} {base : Addr → Bool} {session next : Session} {lost : List Addr}

theorem Session.after_ok {α : Type} {action : LedgerM α} {store : α → Word}
    (ran : session.after action store = some next) :
    ∃ value, action session.state = .ok (value, next.state) := by
  rw [Session.after] at ran
  split at ran
  · rename_i value state result
    obtain rfl : (⟨state, store value⟩ : Session) = next := Option.some.inj ran
    exact ⟨value, result⟩
  · simp at ran

theorem Accounts.after {α : Type} {Allowed : Addr → Prop} {recorded : LedgerM α} {cell : CellM α}
    {value : α} {heap : Heap} {nodes' lost' : List Addr} {store : α → Word}
    (accounts : Accounts base l session.state nodes lost) (records : Records Allowed recorded cell)
    (allowed : ∀ block, Allowed block → base block = false)
    (ran : cell session.state.heap = .ok (value, heap)) (holds : Holds heap l nodes')
    (owned : Owned base heap.live (l :: (nodes' ++ lost')))
    (stepped : session.after recorded store = some next) :
    Accounts base l next.state nodes' lost' := by
  obtain ⟨events, matched, replayed, given⟩ := records _ session.state.log _ _ ran
  obtain ⟨_, recordedRan⟩ := Session.after_ok stepped
  obtain ⟨-, same⟩ := ok_unique recordedRan matched
  rw [same]
  refine ⟨holds, owned, ?_, ?_⟩
  · rw [run_append, accounts.replays]
    exact replayed
  · intro block member
    rcases List.mem_append.mp member with old | new
    · exact accounts.fresh block old
    · exact allowed block (given block new)

theorem Accounts.base_of_free (accounts : Accounts base l session.state nodes lost) {node : Addr}
    (free : session.state.heap.Free node) : ∀ block, block = node → base block = false := by
  rintro block rfl
  exact (accounts.owned.base_dead free.1).1

theorem Accounts.add {node : Addr} {heap : Heap} {nodes' : List Addr}
    (accounts : Accounts base l session.state nodes lost) (free : session.state.heap.Free node)
    (grown : nodes'.Perm (node :: nodes))
    (live : heap.live = update session.state.heap.live node true) :
    Owned base heap.live (l :: (nodes' ++ lost)) := by
  have longer := accounts.owned.alloc free.1
  rw [← live] at longer
  refine longer.perm ?_
  have shape : (l :: (nodes' ++ lost)).Perm (l :: node :: (nodes ++ lost)) :=
    (grown.append_right lost).cons l
  exact (shape.trans (List.Perm.swap node l _)).symm

theorem Kind.join_perm (kind : Kind) (node : Addr) (nodes : List Addr) :
    (kind.join node nodes).Perm (node :: nodes) := by
  cases kind with
  | linkList => exact List.perm_append_singleton node nodes
  | queue => exact List.perm_append_singleton node nodes
  | stack => exact List.Perm.refl _

theorem Kind.push_live (kind : Kind) {heap : Heap} {node : Addr} (value : Word)
    (holds : Holds heap l nodes) (free : heap.Free node) :
    ∃ after, (kind.push l node value : CellM Unit) heap = .ok ((), after) ∧
      Holds after l (kind.join node nodes) ∧ after.live = update heap.live node true := by
  cases kind with
  | linkList =>
      obtain ⟨after, ran, holdsAfter, -, live⟩ := holds.pushBack value free
      exact ⟨after, ran, holdsAfter, live⟩
  | queue =>
      obtain ⟨after, ran, holdsAfter, -, live⟩ := holds.pushBack value free
      exact ⟨after, ran, holdsAfter, live⟩
  | stack =>
      obtain ⟨after, ran, holdsAfter, -, live⟩ := holds.pushFront value free
      exact ⟨after, ran, holdsAfter, live⟩

theorem Kind.pop_idle (kind : Kind) {heap : Heap} (ret : Word) (holds : Holds heap l nodes)
    (vacant : heap.word l = 0 ∨ nodes = []) :
    (kind.pop l ret : CellM Word) heap = .ok (ret, heap) := by
  cases kind with
  | linkList => exact holds.linkListPop_vacant ret vacant
  | queue => exact holds.takeFirst_vacant ret vacant
  | stack => exact holds.takeFirst_vacant ret vacant

theorem Accounts.push {node : Addr} {value : Word}
    (accounts : Accounts base l session.state nodes lost)
    (stepped : sessionStep kind l session (.push node value) = some next) :
    Accounts base l next.state (kind.join node nodes) lost := by
  simp only [sessionStep] at stepped
  split at stepped
  · rename_i free
    obtain ⟨after, ran, holds, live⟩ := kind.push_live value accounts.holds free
    exact accounts.after ((records_closed (· = node)).push kind l node value rfl)
      (accounts.base_of_free free) ran holds
      (accounts.add free (kind.join_perm node nodes) live) stepped
  · simp at stepped

theorem Accounts.pop (accounts : Accounts base l session.state nodes lost)
    (stepped : sessionStep kind l session .pop = some next) :
    ∃ nodes', Accounts base l next.state nodes' lost := by
  have records := (records_closed fun _ => False).pop kind l session.ret
  by_cases vacant : session.state.heap.word l = 0 ∨ nodes = []
  · exact ⟨nodes, accounts.after records (fun _ => False.elim)
      (kind.pop_idle session.ret accounts.holds vacant) accounts.holds accounts.owned stepped⟩
  · obtain ⟨counted, occupied⟩ := not_or.mp vacant
    obtain ⟨node, rest, rfl⟩ := List.exists_cons_of_ne_nil occupied
    obtain ⟨after, ran, popped⟩ := kind.pop_cons session.ret accounts.holds counted
    have fewer := (accounts.owned.perm (List.Perm.swap node l (rest ++ lost))).free
    rw [← popped.live] at fewer
    exact ⟨rest, accounts.after records (fun _ => False.elim) ran popped.holds fewer stepped⟩

theorem Accounts.len (accounts : Accounts base l session.state nodes lost)
    (stepped : sessionStep kind l session .len = some next) :
    Accounts base l next.state nodes lost := by
  have records : Records (fun _ => False) (kind.len l : LedgerM Word) (kind.len l) := by
    cases kind <;> exact (records_closed _).readWord l
  exact accounts.after records (fun _ => False.elim) (kind.len_run accounts.holds.headLive)
    accounts.holds accounts.owned stepped

theorem Accounts.insert {index : Word} {node : Addr} {value : Word}
    (accounts : Accounts base l session.state nodes lost)
    (stepped : sessionStep kind l session (.insert index node value) = some next) :
    ∃ nodes', Accounts base l next.state nodes' lost := by
  simp only [sessionStep] at stepped
  split at stepped
  · rename_i allowed
    have free := allowed.2
    have records := (records_closed (· = node)).linkListInsert l index node value rfl
    by_cases rewires : Accepts session.state.heap l index ∧ index.toNat < nodes.length
    · obtain ⟨after, ran, holds, -, live⟩ :=
        accounts.holds.linkListInsert_run value rewires.1 rewires.2 free
      have grown : (nodes.take (insertPoint nodes.length index.toNat) ++
          node :: nodes.drop (insertPoint nodes.length index.toNat)).Perm (node :: nodes) := by
        refine List.perm_middle.trans ?_
        rw [List.take_append_drop]
      exact ⟨_, accounts.after records (accounts.base_of_free free) ran holds
        (accounts.add free grown live) stepped⟩
    · exact ⟨nodes, accounts.after records (accounts.base_of_free free)
        (accounts.holds.linkListInsert_refused node value rewires) accounts.holds accounts.owned
        stepped⟩
  · simp at stepped

theorem Accounts.get {index : Word} (accounts : Accounts base l session.state nodes lost)
    (stepped : sessionStep kind l session (.get index) = some next) :
    Accounts base l next.state nodes lost := by
  simp only [sessionStep] at stepped
  split at stepped
  · exact accounts.after ((records_closed fun _ => False).linkListGet l index session.ret)
      (fun _ => False.elim) (accounts.holds.linkListGet_run index session.ret) accounts.holds
      accounts.owned stepped
  · simp at stepped

theorem Accounts.remove {index : Word} (accounts : Accounts base l session.state nodes lost)
    (stepped : sessionStep kind l session (.remove index) = some next)
    (formed : next.WellFormed l) :
    ∃ nodes' lost', Accounts base l next.state nodes' lost' ∧
      (lost' = [] ↔ lost = [] ∧ ¬Unlinks l session (.remove index)) := by
  simp only [sessionStep] at stepped
  split at stepped
  · have records := (records_closed fun _ => False).linkListRemove l index
    by_cases rewires : Accepts session.state.heap l index ∧ index.toNat < nodes.length
    · obtain ⟨accepted, inside⟩ := rewires
      by_cases inner : index.toNat + 1 < nodes.length
      · obtain ⟨after, ran, holds, -, live⟩ := accounts.holds.linkListRemove_run accepted inner
        have moved : (nodes.eraseIdx (index.toNat + 1) ++ nodes[index.toNat + 1] :: lost).Perm
            (nodes ++ lost) := by
          refine List.perm_middle.trans ?_
          exact (List.getElem_cons_eraseIdx_perm inner).append_right lost
        have owned := accounts.owned.perm (moved.symm.cons l)
        rw [← live] at owned
        refine ⟨_, _, accounts.after records (fun _ => False.elim) ran holds owned stepped, ?_⟩
        simpa using fun _ => ⟨accepted, nodes, accounts.holds, inner⟩
      · -- the scan has come round to the head, which is unlinked from its own ring
        obtain ⟨after, ran, poisoned, live⟩ :=
          accounts.holds.linkListRemove_last accepted (by omega)
        obtain ⟨events, matched, -, -⟩ := records _ session.state.log _ _ ran
        obtain ⟨_, recordedRan⟩ := Session.after_ok stepped
        obtain ⟨-, same⟩ := ok_unique recordedRan matched
        obtain ⟨others, holds⟩ := formed
        rw [same] at holds
        have sane : after.Sane := accounts.holds.sane.of_live_le fun addr => by rw [live]; exact id
        exact absurd ⟨others, holds⟩ (@not_wellFormed_of_poisoned l ⟨after, 0⟩ poisoned sane)
    · refine ⟨nodes, lost, accounts.after records (fun _ => False.elim)
        (accounts.holds.linkListRemove_refused rewires) accounts.holds accounts.owned stepped, ?_⟩
      refine (and_iff_left ?_).symm
      rintro ⟨accepted, others, holds, inner⟩
      rw [← accounts.holds.ring.unique holds.ring] at inner
      exact rewires ⟨accepted, by omega⟩
  · simp at stepped

theorem Accounts.step {op : Op} (accounts : Accounts base l session.state nodes lost)
    (stepped : sessionStep kind l session op = some next) (formed : next.WellFormed l) :
    ∃ nodes' lost', Accounts base l next.state nodes' lost' ∧
      (lost' = [] ↔ lost = [] ∧ ¬Unlinks l session op) := by
  have same (op : Op) (keeps : ¬Unlinks l session op) :
      lost = [] ↔ lost = [] ∧ ¬Unlinks l session op := (and_iff_left keeps).symm
  cases op with
  | push node value => exact ⟨_, lost, accounts.push stepped, same _ id⟩
  | pop =>
      obtain ⟨nodes', settled⟩ := accounts.pop stepped
      exact ⟨nodes', lost, settled, same _ id⟩
  | len => exact ⟨_, lost, accounts.len stepped, same _ id⟩
  | insert index node value =>
      obtain ⟨nodes', settled⟩ := accounts.insert stepped
      exact ⟨nodes', lost, settled, same _ id⟩
  | remove index => exact accounts.remove stepped formed
  | get index => exact ⟨_, lost, accounts.get stepped, same _ id⟩

theorem Accounts.always_wellFormed (accounts : Accounts base l session.state nodes lost)
    (ends : kind ≠ .linkList) (ops : List Op) :
    Always (sessionStep kind l) (Session.WellFormed l) session ops := by
  have kept (session : Session) (op : Op) (next : Session) (_ : True)
      (before : ∃ nodes lost, Accounts base l session.state nodes lost)
      (stepped : sessionStep kind l session op = some next) :
      ∃ nodes lost, Accounts base l next.state nodes lost := by
    obtain ⟨nodes, lost, accounts⟩ := before
    cases op with
    | push node value => exact ⟨_, lost, accounts.push stepped⟩
    | pop =>
        obtain ⟨nodes', settled⟩ := accounts.pop stepped
        exact ⟨nodes', lost, settled⟩
    | len => exact ⟨nodes, lost, accounts.len stepped⟩
    | insert index node value =>
        obtain ⟨nodes', settled⟩ := accounts.insert stepped
        exact ⟨nodes', lost, settled⟩
    | remove index => simp [sessionStep, ends] at stepped
    | get index => exact ⟨nodes, lost, accounts.get stepped⟩
  refine always_eachStep kept ?_ ⟨nodes, lost, accounts⟩ (eachStep_true session ops)
  rintro other ⟨nodes', lost', settled⟩
  exact ⟨nodes', settled.holds⟩

theorem Accounts.run {ops : List Op} {final : Session}
    (accounts : Accounts base l session.state nodes lost)
    (ran : StepMachine.run (sessionStep kind l) session ops = some final)
    (formed : Always (sessionStep kind l) (Session.WellFormed l) session ops) :
    ∃ nodes' lost', Accounts base l final.state nodes' lost' ∧
      (lost' = [] ↔ lost = [] ∧
        EachStep (sessionStep kind l) (fun session op => ¬Unlinks l session op) session ops) := by
  induction ops generalizing session nodes lost with
  | nil =>
      obtain rfl : session = final := Option.some.inj ran
      exact ⟨nodes, lost, accounts, (and_iff_left trivial).symm⟩
  | cons op rest ih =>
      obtain ⟨next, stepped, remaining⟩ := run_cons_some ran
      have later := formed.2 next stepped
      obtain ⟨middle, dropped, settled, first⟩ := accounts.step stepped later.start
      obtain ⟨nodes', lost', done, second⟩ := ih settled remaining later
      refine ⟨nodes', lost', done, ?_⟩
      rw [second, first, and_assoc]
      refine and_congr_right fun _ => ⟨?_, ?_⟩
      · rintro ⟨here, each⟩ other same
        obtain rfl := Option.some.inj (stepped.symm.trans same)
        exact ⟨here, each⟩
      · intro each
        exact each next stepped

theorem Session.runs {α : Type} {Allowed : Addr → Prop} {recorded : LedgerM α}
    {cell : CellM α} {value : α}
    {heap : Heap} {store : α → Word} (records : Records Allowed recorded cell)
    (ran : cell session.state.heap = .ok (value, heap)) :
    ∃ next, session.after recorded store = some next := by
  obtain ⟨events, matched, -, -⟩ := records _ session.state.log _ _ ran
  exact ⟨_, by rw [Session.after, matched]⟩

theorem Holds.session_runs (holds : Holds session.state.heap l nodes) {op : Op}
    (offered : op.Offered kind session) : ∃ next, sessionStep kind l session op = some next := by
  have client : Holds (Client.mk session.state.heap session.ret).heap l nodes := holds
  cases op with
  | push node value =>
      have free : session.state.heap.Free node := offered
      obtain ⟨after, ran, -, -⟩ := kind.push_live value holds free
      rw [sessionStep, if_pos free]
      exact Session.runs ((records_closed (· = node)).push kind l node value rfl) ran
  | pop =>
      have records := (records_closed fun _ => False).pop kind l session.ret
      by_cases vacant : session.state.heap.word l = 0 ∨ nodes = []
      · exact Session.runs records (kind.pop_idle session.ret holds vacant)
      · obtain ⟨counted, occupied⟩ := not_or.mp vacant
        obtain ⟨node, rest, rfl⟩ := List.exists_cons_of_ne_nil occupied
        obtain ⟨after, ran, -⟩ := kind.pop_cons session.ret holds counted
        exact Session.runs records ran
  | len =>
      have records : Records (fun _ => False) (kind.len l : LedgerM Word) (kind.len l) := by
        cases kind <;> exact (records_closed _).readWord l
      exact Session.runs records (kind.len_run holds.headLive)
  | insert index node value =>
      have allowed : kind = .linkList ∧ session.state.heap.Free node := offered
      obtain ⟨next, stepped, -⟩ := client.insert_effect index allowed.2 value
      obtain ⟨_, ran, -⟩ := Client.after_ok stepped
      rw [sessionStep, if_pos allowed]
      exact Session.runs ((records_closed (· = node)).linkListInsert l index node value rfl) ran
  | remove index =>
      have list : kind = .linkList := offered
      obtain ⟨next, stepped, -⟩ := client.remove_effect index
      obtain ⟨_, ran, -⟩ := Client.after_ok stepped
      rw [sessionStep, if_pos list]
      exact Session.runs ((records_closed fun _ => False).linkListRemove l index) ran
  | get index =>
      have list : kind = .linkList := offered
      rw [sessionStep, if_pos list]
      exact Session.runs ((records_closed fun _ => False).linkListGet l index session.ret)
        (holds.linkListGet_run index session.ret)

end Steps

theorem addNode_recorded {heap : Heap} {node : Addr} (value : Word) (free : heap.Free node)
    (log : List (Event Addr)) :
    (addNode node value : LedgerM Unit) ⟨heap, log⟩ =
      .ok ((), ⟨heap.make node value, log ++ [.alloc node]⟩) := by
  have writesNext (addr value : Addr) :
      (writeNext addr value : LedgerM Unit) = LedgerM.lift (writeNext addr value) [] := rfl
  have writesPrev (addr value : Addr) :
      (writePrev addr value : LedgerM Unit) = LedgerM.lift (writePrev addr value) [] := rfl
  have writesWord (addr : Addr) (value : Word) :
      (writeWord addr value : LedgerM Unit) = LedgerM.lift (writeWord addr value) [] := rfl
  have allocates (addr : Addr) (size : Nat) :
      (kmalloc addr size : LedgerM Unit) = LedgerM.lift (kmalloc addr size) [.alloc addr] := rfl
  simp only [addNode, initListHead, bind_apply, allocates, writesNext, writesPrev, writesWord,
    LedgerM.lift, kmalloc_run, writeNext_run, writePrev_run, writeWord_run, free, update_self,
    List.append_nil, Heap.make]

theorem Kind.add_recorded (kind : Kind) {heap : Heap} (free : heap.Free l) :
    (kind.add l : LedgerM Unit) ⟨heap, []⟩ = .ok ((), ⟨heap.make l 0, [.alloc l]⟩) := by
  cases kind <;> exact addNode_recorded 0 free []

theorem Accounts.initial {heap : Heap} (sane : heap.Sane) (free : heap.Free l) :
    Accounts heap.live l ⟨heap.make l 0, [.alloc l]⟩ [] [] := by
  refine ⟨Holds.fresh sane 0 free, (Owned.start heap.live).alloc free.1, ?_, ?_⟩
  · rw [run_cons, step_alloc free.1]
    rfl
  · intro block member
    obtain rfl : block = l := by simpa using member
    exact free.1

theorem Holds.next_self_iff {heap : Heap} (holds : Holds heap l nodes) :
    heap.next l = l ↔ nodes = [] := by
  have whole : Holds heap l ([] ++ nodes) := holds
  have link : heap.next l = nodes.headD l := whole.ring.link_across.1
  rw [link]
  cases nodes with
  | nil => simp
  | cons node rest =>
      have different : node ≠ l := fun same => holds.first_notMem (by simp [same])
      simp [different]

/-- Neither the operations nor `del_*`, which always ends, touch a struct that is not live.  All that
`kmalloc` gave out has been freed once exactly when no removal unlinked a node and the ring is empty
by then. -/
theorem container_frees_nodes_iff (kind : Kind) (heap : Heap) (l : Addr) (ret : Word)
    (sane : heap.Sane) (free : heap.Free l) :
    ∃ start, (kind.add l : LedgerM Unit) ⟨heap, []⟩ = .ok ((), start) ∧
      ∀ ops final, run (sessionStep kind l) ⟨start, ret⟩ ops = some final →
        (kind = .linkList → Always (sessionStep kind l) (Session.WellFormed l) ⟨start, ret⟩ ops) →
        (∀ op : Op, op.Offered kind final → ∃ next, sessionStep kind l final op = some next) ∧
        ∃ rounds, ∀ fuel, rounds ≤ fuel →
          ∃ after, (kind.del fuel l : LedgerM Unit) final.state = .ok ((), after) ∧
            (FreedOnce after.log ↔
              EachStep (sessionStep kind l) (fun session op => ¬Unlinks l session op)
                ⟨start, ret⟩ ops ∧ final.state.heap.next l = l) := by
  refine ⟨_, kind.add_recorded free, fun ops final ran indexed => ?_⟩
  have opening : Accounts heap.live l
      (⟨⟨heap.make l 0, [.alloc l]⟩, ret⟩ : Session).state [] [] := Accounts.initial sane free
  have formed : Always (sessionStep kind l) (Session.WellFormed l)
      ⟨⟨heap.make l 0, [.alloc l]⟩, ret⟩ ops := by
    by_cases list : kind = .linkList
    · exact indexed list
    · exact opening.always_wellFormed list ops
  obtain ⟨nodes, lost, settled, kept⟩ := opening.run ran formed
  refine ⟨fun op offered => settled.holds.session_runs offered, nodes.length + 1, fun fuel enough => ?_⟩
  obtain ⟨after, deleted, live⟩ := settled.holds.del_run kind enough
  obtain ⟨events, matched, replayed, given⟩ :=
    (records_closed fun _ => False).del kind fuel l _ final.state.log _ _ deleted
  have owned := settled.owned.free
  rw [← live] at owned
  have replays : run Ledger.step heap.live (final.state.log ++ events) = some after.live := by
    rw [run_append, settled.replays]
    exact replayed
  refine ⟨_, matched, ?_⟩
  rw [owned.freedOnce_iff replays ?_, List.append_eq_nil_iff, kept, settled.holds.next_self_iff]
  · constructor
    · rintro ⟨empty, -, each⟩
      exact ⟨each, empty⟩
    · rintro ⟨each, empty⟩
      exact ⟨empty, rfl, each⟩
  · intro block member
    rcases List.mem_append.mp member with old | new
    · exact settled.fresh block old
    · exact (given block new).elim

theorem container_frees_nodes_iff_queue :
    ∃ start final, (Kind.queue.add 4096 : LedgerM Unit) ⟨vacantHeap, []⟩ = .ok ((), start) ∧
      run (sessionStep .queue 4096) ⟨start, 0⟩ [.push 8192 7, .pop] = some final ∧
      ∃ rounds, ∀ fuel, rounds ≤ fuel →
        ∃ after, (Kind.queue.del fuel 4096 : LedgerM Unit) final.state = .ok ((), after) ∧
          (FreedOnce after.log ↔
            EachStep (sessionStep .queue 4096) (fun session op => ¬Unlinks 4096 session op)
              ⟨start, 0⟩ [.push 8192 7, .pop] ∧ final.state.heap.next 4096 = 4096) := by
  have free : vacantHeap.Free 4096 := by decide
  obtain ⟨start, made, exact⟩ := container_frees_nodes_iff .queue vacantHeap 4096 0
    ⟨rfl, rfl, rfl⟩ free
  obtain rfl := (ok_unique made (Kind.queue.add_recorded free)).2
  obtain ⟨final, ran⟩ := Option.isSome_iff_exists.mp (by decide +kernel :
    (run (sessionStep .queue 4096) ⟨⟨vacantHeap.make 4096 0, [.alloc 4096]⟩, 0⟩
      [.push 8192 7, .pop]).isSome = true)
  exact ⟨_, final, made, ran, (exact _ final ran (by simp)).2⟩

theorem delQueue_leaks_node :
    ∃ start final after, (Kind.queue.add 4096 : LedgerM Unit) ⟨vacantHeap, []⟩ = .ok ((), start) ∧
      run (sessionStep .queue 4096) ⟨start, 0⟩ [.push 8192 7] = some final ∧
      (Kind.queue.del 2 4096 : LedgerM Unit) final.state = .ok ((), after) ∧
      .alloc 8192 ∈ after.log ∧ .free 8192 ∉ after.log ∧ ¬FreedOnce after.log := by
  have free : vacantHeap.Free 4096 := by decide
  have observed : (run (sessionStep .queue 4096) ⟨⟨vacantHeap.make 4096 0, [.alloc 4096]⟩, 0⟩
      [.push 8192 7]).map (fun session =>
        match (Kind.queue.del 2 4096 : LedgerM Unit) session.state with
        | .ok (_, after) => some after.log
        | .error _ => none) = some (some [.alloc 4096, .alloc 8192, .free 4096]) := by decide +kernel
  obtain ⟨final, ran, deleted⟩ := Option.map_eq_some_iff.mp observed
  split at deleted
  · rename_i value after finished
    refine ⟨_, final, after, Kind.queue.add_recorded free, ran, finished, ?_⟩
    rw [Option.some.inj deleted]
    decide +kernel
  · simp at deleted

end LearnK.Container
