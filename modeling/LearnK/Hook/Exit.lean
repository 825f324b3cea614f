import LearnK.Hook.Moves
import LearnK.Hook.Pairing
import LearnK.Lib.Ledger

/-! Everything the probe allocates between `hook_init` and `hook_exit`: the records, the entries of
the pool, and the buffers of `get_absolute_path`. -/

namespace LearnK.Hook

open Ledger StepMachine SearchTree Function
open LearnK.RbTree (Addr RbRoutines addrs)

@[simp] def Pc.requests : Pc → Bool
  | .kmalloc | .copy | .link _ => true
  | _ => false

def Call.events (kmalloc : Option Addr) (call : Call) : List (Event Addr) :=
  match call.pc with
  | .kmalloc => kmalloc.toList.map .alloc
  | .copy =>
      if call.regs.isSome ∧ call.params.isSome ∧ call.ri > 0 then kmalloc.toList.map .alloc else []
  | .link (some _) => kmalloc.toList.map .alloc
  | .erase entry => entry.toList.map .free
  | .kfree => call.popped.toList.map .free
  | _ => []

def Action.events (state : State) : Action → List (Event Addr)
  | .run self kmalloc => (state.calls[self]?.map (Call.events kmalloc)).getD []
  | _ => []

structure Module where
  state : State
  probePool : Addr
  log : List (Event Addr)

def hookInit (probePool : Addr) (entries : Addr → MyEntry) (heap : Addr → MountParams) : Module :=
  ⟨.initial entries heap, probePool, [.alloc probePool]⟩

def Module.live (loaded : Module) : Finset Addr := settle ∅ loaded.log

def moduleStep (routines : RbRoutines) (loaded : Module) (action : Action) : Option Module :=
  (step routines loaded.state action).map fun state =>
    { loaded with state := state, log := loaded.log ++ action.events loaded.state }

def Module.isFresh (loaded : Module) : Option Addr → Bool
  | none => false
  | some block => decide (block ∉ loaded.live)

def Module.Grants (loaded : Module) : Action → Prop
  | .run self kmalloc =>
      (loaded.state.calls[self]?.map fun call => call.pc.requests) = some true →
        loaded.isFresh kmalloc = true
  | _ => True

instance (loaded : Module) : ∀ action, Decidable (loaded.Grants action)
  | .run _ _ => inferInstanceAs (Decidable (_ → _))
  | .call _ _ _ => isTrue trivial
  | .ret _ _ => isTrue trivial

def Module.Assumed (loaded : Module) (action : Action) : Prop :=
  Hook.Assumed loaded.state action ∧ loaded.Grants action

instance (loaded : Module) (action : Action) : Decidable (loaded.Assumed action) :=
  inferInstanceAs (Decidable (_ ∧ _))

def probePoolClear (routines : RbRoutines) : Nat → ProbePool → Option (List Addr × ProbePool)
  | 0, _ => none
  | fuel + 1, map =>
      match routines.rbFirst map.root with
      | none => some ([], map)
      | some node =>
          (probePoolClear routines fuel { map with root := routines.rbErase node map.root }).map
            fun (freed, final) => (node :: freed, final)

/-- `hook_exit`, once `unregister_kretprobe` has waited for the handlers; the lock is waited for. -/
def hookExit (routines : RbRoutines) (fuel : Nat) (loaded : Module) : Option Module :=
  if loaded.state.lock = none then
    (probePoolClear routines fuel loaded.state.pool).map fun (freed, pool) =>
      { loaded with
        state := { loaded.state with pool := pool, live := loaded.state.live.diff freed }
        log := loaded.log ++ freed.map .free ++ [.free loaded.probePool] }
  else none

def Call.held (call : Call) : List Addr := if call.pc.owns then call.params.toList else []

@[simp] def Pc.hasPath : Pc → Bool
  | .kmalloc | .copy => false
  | _ => true

def State.pathsMade (state : State) : Nat := state.calls.countP fun call => call.pc.hasPath

def State.Located (state : State) : Prop :=
  state.live.Perm (addrs state.pool.root ++ state.calls.flatMap Call.held)

variable {routines : RbRoutines} {state next : State} {self : Nat} {call : Call}

theorem held_set (moved : Call) (found : state.calls[self]? = some call) : ∃ rest,
    (state.calls.flatMap Call.held).Perm (call.held ++ rest) ∧
      ((state.calls.set self moved).flatMap Call.held).Perm (moved.held ++ rest) := by
  obtain ⟨before, after, shape, replaced⟩ := Numbered.set_split found
  refine ⟨before.flatMap Call.held ++ after.flatMap Call.held, ?_, ?_⟩
  · rw [shape, List.flatMap_append, List.flatMap_cons]
    exact List.perm_append_comm_assoc ..
  · rw [replaced, List.flatMap_append, List.flatMap_cons]
    exact List.perm_append_comm_assoc ..

theorem held_same (moved : Call) (found : state.calls[self]? = some call)
    (same : moved.held = call.held) :
    ((state.calls.set self moved).flatMap Call.held).Perm (state.calls.flatMap Call.held) := by
  obtain ⟨rest, before, after⟩ := held_set moved found
  rw [same] at after
  exact after.trans before.symm

theorem located_effect (paired : Paired state) (found : state.calls[self]? = some call)
    (located : state.Located) (effect : Effect routines state self call next) : next.Located := by
  have good := paired.good self call found
  cases effect with
  | quiet pc ret lock like there moved =>
      refine located.trans (.append_left _ (held_same _ found ?_).symm)
      simp only [Call.held, like.owns]
  | allocate params here fresh =>
      obtain ⟨rest, before, after⟩ :=
        held_set { call with params := some params, pc := .copy } found
      simp only [Call.held, here, Pc.owns, if_false, if_true, Option.toList_some,
        List.nil_append, List.singleton_append, Bool.false_eq_true] at before after
      refine (located.cons params).trans (.trans ?_ (.append_left _ after.symm))
      exact (List.perm_middle.trans (.cons params (.append_left _ before.symm))).symm
  | copy params record here owned =>
      refine located.trans (.append_left _ (held_same _ found ?_).symm)
      simp [Call.held, here]
  | insert params entry slot here owned fresh free =>
      obtain ⟨before, after, shape, inserted, -, -⟩ := RbTree.insert_addrs routines
        paired.pooled.ordered free fun member => fresh (paired.pooled.live entry member)
      have same := held_same { call with pc := .unlockInsert } found
        (by simp [Call.held, here])
      refine (located.cons entry).trans (.trans ?_ (.append_left _ same.symm))
      rw [inserted, shape, List.append_assoc, List.append_assoc]
      exact List.perm_middle.symm
  | pop entry here met =>
      obtain ⟨member, -⟩ := searchNode_some met
      have erased := routines.rbErase_addrs entry state.pool.root paired.pooled.ordered.nodup member
      have same := held_same { call with popped := some (state.pool.entries entry).params,
                                         pc := .unlockPop } found
        (by simp [Call.held, here])
      refine (located.erase entry).trans (.trans ?_ (.append_left _ same.symm))
      rw [List.erase_append_left _ member, erased]
  | print params here popped =>
      refine located.trans (.append_left _ (held_same _ found ?_).symm)
      simp [Call.held, here]
  | free params here popped =>
      have owned := (good.popped (by simp [here])).2.symm.trans popped
      obtain ⟨rest, before, after⟩ := held_set { call with pc := .done } found
      have own : call.held = [params] := by
        simp [Call.held, here, owned]
      have gone : ({ call with pc := .done } : Call).held = [] := by
        simp [Call.held]
      rw [own, List.singleton_append] at before
      rw [gone, List.nil_append] at after
      have taken := located.trans ((List.Perm.append_left _ before).trans List.perm_middle)
      have left := taken.erase params
      rw [List.erase_cons_head] at left
      exact left.trans (.append_left _ after.symm)

/-- What one statement does to the blocks in use, next to the events it leaves; `drop` is the buffer
of `get_absolute_path`, whose only pointer is gone after the copy. -/
inductive Books (state next : State) : List (Event Addr) → Prop
  | quiet (live : next.live = state.live) (paths : next.pathsMade = state.pathsMade) :
      Books state next []
  | keep (block : Addr) (live : next.live = block :: state.live)
      (paths : next.pathsMade = state.pathsMade) : Books state next [.alloc block]
  | drop (block : Addr) (live : next.live = state.live)
      (paths : next.pathsMade = state.pathsMade + 1) : Books state next [.alloc block]
  | free (block : Addr) (held : block ∈ state.live) (live : next.live = state.live.erase block)
      (paths : next.pathsMade = state.pathsMade) : Books state next [.free block]

theorem pathsMade_set (found : state.calls[self]? = some call) (moved : Call) :
    (state.calls.set self moved).countP (fun call => call.pc.hasPath) +
        (if call.pc.hasPath then 1 else 0) =
      state.pathsMade + (if moved.pc.hasPath then 1 else 0) := by
  obtain ⟨before, after, shape, replaced⟩ := Numbered.set_split found
  rw [State.pathsMade, replaced, shape, List.countP_append, List.countP_append, List.countP_cons,
    List.countP_cons]
  omega

theorem pathsMade_same {moved : Call} (found : state.calls[self]? = some call)
    (calls : next.calls = state.calls.set self moved)
    (same : moved.pc.hasPath = call.pc.hasPath) : next.pathsMade = state.pathsMade := by
  have counted := pathsMade_set found moved
  rw [State.pathsMade, calls]
  rw [same] at counted
  omega

theorem pathsMade_more {moved : Call} (found : state.calls[self]? = some call)
    (calls : next.calls = state.calls.set self moved) (without : call.pc.hasPath = false)
    (now : moved.pc.hasPath = true) : next.pathsMade = state.pathsMade + 1 := by
  have counted := pathsMade_set found moved
  rw [State.pathsMade, calls]
  simpa only [without, now, if_true, Bool.false_eq_true, if_false, Nat.add_zero] using counted

theorem entryStep_books {kmalloc : Option Addr} (paired : Paired state)
    (found : state.calls[self]? = some call)
    (granted : call.pc.requests = true → ∃ block, kmalloc = some block)
    (stepped : entryStep routines self kmalloc call state = some next) :
    Books state next (call.events kmalloc) := by
  have good := paired.good self call found
  cases pc : call.pc with
  | kmalloc =>
      obtain ⟨block, rfl⟩ := granted (by simp [pc])
      simp only [entryStep, pc] at stepped
      cases stepped
      rw [Call.events, pc]
      exact .keep block rfl (pathsMade_same found rfl (by simp [pc]))
  | copy =>
      obtain ⟨block, rfl⟩ := granted (by simp [pc])
      obtain ⟨positive, regs, params, registers, owned⟩ := good.copy_reads pc
      simp only [entryStep, pc, registers, owned, positive, if_true] at stepped
      obtain ⟨record, -, rfl⟩ := Option.map_eq_some_iff.mp stepped
      rw [Call.events, pc, if_pos ⟨by simp [registers], by simp [owned], positive⟩]
      exact .drop block rfl (pathsMade_more found rfl (by simp [pc]) rfl)
  | link new =>
      obtain ⟨entry, rfl⟩ := granted (by simp [pc])
      obtain ⟨slot, rfl, -⟩ := paired.link_slot found pc
      simp only [entryStep, pc] at stepped
      obtain ⟨block, held, linked⟩ := Option.bind_eq_some_iff.mp stepped
      cases linked
      rw [Call.events, pc]
      exact .keep entry rfl (pathsMade_same found rfl (by simp [pc]))
  | lockInsert =>
      simp only [entryStep, pc] at stepped
      split at stepped <;> cases stepped
      rw [Call.events, pc]
      exact .quiet rfl (pathsMade_same found rfl (by simp [pc]))
  | printEntry =>
      simp only [entryStep, pc] at stepped
      obtain ⟨params, -, rfl⟩ := Option.map_eq_some_iff.mp stepped
      rw [Call.events, pc]
      exact .quiet rfl (pathsMade_same found rfl (by simp [pc]))
  | descend | unlockInsert =>
      simp only [entryStep, pc] at stepped
      cases stepped
      rw [Call.events, pc]
      exact .quiet rfl (pathsMade_same found rfl (by simp [pc]))
  | body | readAx | lockPop | search | erase | unlockPop | printReturn | kfree | done =>
      simp [entryStep, pc] at stepped

theorem retStep_books {kmalloc : Option Addr} (paired : Paired state)
    (found : state.calls[self]? = some call)
    (stepped : retStep routines self call state = some next) :
    Books state next (call.events kmalloc) := by
  have good := paired.good self call found
  cases pc : call.pc with
  | readAx regs =>
      simp only [retStep, pc] at stepped
      obtain ⟨regs, -, rfl⟩ := Option.map_eq_some_iff.mp stepped
      rw [Call.events, pc]
      exact .quiet rfl (pathsMade_same found rfl (by simp [pc]))
  | lockPop =>
      simp only [retStep, pc] at stepped
      split at stepped <;> cases stepped
      rw [Call.events, pc]
      exact .quiet rfl (pathsMade_same found rfl (by simp [pc]))
  | search | unlockPop =>
      simp only [retStep, pc] at stepped
      cases stepped
      rw [Call.events, pc]
      exact .quiet rfl (pathsMade_same found rfl (by simp [pc]))
  | erase target =>
      obtain ⟨entry, rfl, met⟩ := paired.erase_entry found pc
      simp only [retStep, pc, eraseNode, Option.elim_some] at stepped
      cases stepped
      rw [Call.events, pc]
      exact .free entry (paired.pooled.live entry (searchNode_some met).1) rfl
        (pathsMade_same found rfl (by simp [pc]))
  | printReturn =>
      simp only [retStep, pc] at stepped
      rw [Call.events, pc]
      split at stepped
      · cases stepped
        exact .quiet rfl (pathsMade_same found rfl (by simp [pc]))
      · split at stepped <;> cases stepped
        exact .quiet rfl (pathsMade_same found rfl (by simp [pc]))
  | kfree =>
      simp only [retStep, pc] at stepped
      obtain ⟨params, popped, rfl⟩ := Option.map_eq_some_iff.mp stepped
      obtain ⟨block, owned, live, -⟩ := good.owned (by simp [pc])
      have same := (good.popped (by simp [pc])).2
      rw [popped, owned, Option.some.injEq] at same
      rw [Call.events, pc, popped]
      exact .free params (same ▸ live) rfl (pathsMade_same found rfl (by simp [pc]))
  | kmalloc | copy | lockInsert | descend | link | unlockInsert | printEntry | body | done =>
      simp [retStep, pc] at stepped

theorem alloc_mem_events {kmalloc : Option Addr} {block : Addr}
    (member : .alloc block ∈ call.events kmalloc) :
    call.pc.requests = true ∧ kmalloc = some block := by
  cases pc : call.pc with
  | kmalloc => simpa [Call.events, pc] using member
  | copy =>
      simp only [Call.events, pc] at member
      split at member
      · simpa using member
      · simp at member
  | link new => cases new <;> simp [Call.events, pc] at member ⊢; exact member
  | erase entry => simp [Call.events, pc] at member
  | kfree => simp [Call.events, pc] at member
  | lockInsert | descend | unlockInsert | printEntry | body | readAx | lockPop | search | unlockPop
  | printReturn | done => simp [Call.events, pc] at member

/-- All that was ever allocated and is not freed: a path for each call, the pool and the blocks in
use. -/
structure Module.Balanced (loaded : Module) (live : Addr → Bool) (lost : List Addr) : Prop where
  replayed : run Ledger.step (fun _ => false) loaded.log = some live
  owned : Owned (fun _ => false) live (lost ++ loaded.probePool :: loaded.state.live)
  paths : lost.length = loaded.state.pathsMade

structure Module.Accounts (loaded : Module) : Prop where
  paired : Paired loaded.state
  located : loaded.state.Located
  locking : ∀ self, loaded.state.lock = some self →
    ∃ call, loaded.state.calls[self]? = some call ∧ call.pc.critical = true
  balanced : ∃ live lost, loaded.Balanced live lost

variable {loaded : Module} {live : Addr → Bool} {lost : List Addr}

theorem Module.fresh_of {kmalloc : Option Addr} (fresh : loaded.isFresh kmalloc = true) :
    ∃ block, kmalloc = some block ∧ block ∉ loaded.live := by
  cases kmalloc with
  | none => simp [Module.isFresh] at fresh
  | some block => exact ⟨block, rfl, by simpa [Module.isFresh] using fresh⟩

theorem Module.Balanced.dead (balanced : loaded.Balanced live lost) {block : Addr}
    (outside : block ∉ loaded.live) : live block = false := by
  have settled : live block = true ↔ block ∈ loaded.live :=
    mem_settle_iff (by simp) balanced.replayed block
  rw [← settled] at outside
  simpa using outside

theorem Module.Balanced.books {events : List (Event Addr)} (balanced : loaded.Balanced live lost)
    (books : Books loaded.state next events)
    (fresh : ∀ block, .alloc block ∈ events → block ∉ loaded.live) :
    ∃ live lost, ({ loaded with state := next, log := loaded.log ++ events } : Module).Balanced
      live lost := by
  have replay (event : Event Addr) (after : Addr → Bool)
      (stepped : Ledger.step live event = some after) :
      run Ledger.step (fun _ => false) (loaded.log ++ [event]) = some after := by
    rw [run_append, balanced.replayed, Option.bind_some, run_cons, stepped]
    rfl
  cases books with
  | quiet same paths =>
      refine ⟨live, lost, by rw [List.append_nil]; exact balanced.replayed, ?_,
        balanced.paths.trans paths.symm⟩
      rw [same]
      exact balanced.owned
  | keep block more paths =>
      have dead := balanced.dead (fresh block (by simp))
      refine ⟨_, lost, replay _ _ (step_alloc dead), ?_, balanced.paths.trans paths.symm⟩
      refine (balanced.owned.alloc dead).perm ?_
      rw [more]
      exact List.perm_middle.symm.trans (.append_left _ (.swap ..))
  | drop block same paths =>
      have dead := balanced.dead (fresh block (by simp))
      refine ⟨_, block :: lost, replay _ _ (step_alloc dead), ?_, ?_⟩
      · rw [same]
        exact balanced.owned.alloc dead
      · rw [List.length_cons, balanced.paths, paths]
  | free block held less paths =>
      have taken := (List.perm_cons_erase held).cons loaded.probePool
      have first := ((taken.trans (.swap ..)).append_left lost).trans List.perm_middle
      have owned := balanced.owned.perm first
      have alive := (owned.live_iff block).mpr (.inr (by simp))
      refine ⟨_, lost, replay _ _ (step_free alive), ?_, balanced.paths.trans paths.symm⟩
      rw [less]
      exact owned.free

theorem Locking.held {pc other : Pc} {lock after : Option Nat}
    (locking : Locking self pc other lock after) {owner : Nat} (same : after = some owner) :
    lock = some owner ∧ (owner = self → pc.critical = true → other.critical = true) ∨
      owner = self ∧ other.critical = true := by
  cases locking with
  | keep kept => exact .inl ⟨same, fun _ inside => kept.trans inside⟩
  | acquire inside => exact .inr ⟨(Option.some.inj same).symm, inside⟩
  | release => simp at same

theorem Moves.locked (moves : Moves state self call next) (found : state.calls[self]? = some call)
    (before : ∀ owner, state.lock = some owner →
      ∃ call, state.calls[owner]? = some call ∧ call.pc.critical = true) (owner : Nat)
    (held : next.lock = some owner) :
    ∃ call, next.calls[owner]? = some call ∧ call.pc.critical = true := by
  obtain ⟨moved, effect⟩ := moves
  rw [effect.calls]
  rcases effect.locking.held held with ⟨earlier, kept⟩ | ⟨rfl, inside⟩
  · obtain ⟨other, present, inside⟩ := before owner earlier
    by_cases mine : owner = self
    · subst owner
      obtain rfl := Option.some.inj (present.symm.trans found)
      exact ⟨moved, Numbered.set_self found, kept rfl inside⟩
    · exact ⟨other, (List.getElem?_set_ne (Ne.symm mine)).trans present, inside⟩
  · exact ⟨moved, Numbered.set_self found, inside⟩

theorem accounts_start (probePool : Addr) (entries : Addr → MyEntry) (heap : Addr → MountParams) :
    (hookInit probePool entries heap).Accounts := by
  refine ⟨paired_initial entries heap, .refl _, by simp [hookInit, State.initial],
    update (fun _ => false) probePool true, [], rfl, ?_, rfl⟩
  exact (Owned.start _).alloc rfl

theorem accounts_step {action : Action} {after : Module} (assumed : loaded.Assumed action)
    (accounts : loaded.Accounts) (stepped : moduleStep routines loaded action = some after) :
    after.Accounts := by
  obtain ⟨next, moved, rfl⟩ := Option.map_eq_some_iff.mp stepped
  have paired : Paired next := paired_step assumed.1 accounts.paired moved
  obtain ⟨live, lost, balanced⟩ := accounts.balanced
  cases action with
  | call ri regs memory =>
      obtain rfl := Option.some.inj moved
      refine ⟨paired, ?_, ?_, balanced.books (.quiet rfl ?_) (by simp [Action.events])⟩
      · simpa [State.Located, Call.held] using accounts.located
      · intro owner held
        obtain ⟨other, present, inside⟩ := accounts.locking owner held
        exact ⟨other, Numbered.append_old present, inside⟩
      · simp [State.pathsMade]
  | run self kmalloc =>
      obtain ⟨call, found, effected⟩ := Option.bind_eq_some_iff.mp moved
      have events : (Action.run self kmalloc).events loaded.state = call.events kmalloc := by
        rw [Action.events, found, Option.map_some, Option.getD_some]
      have granted (requests : call.pc.requests = true) :
          ∃ block, kmalloc = some block ∧ block ∉ loaded.live :=
        Module.fresh_of (assumed.2 (by rw [found, Option.map_some, requests]))
      have fresh (block : Addr) (member : .alloc block ∈ call.events kmalloc) :
          block ∉ loaded.live := by
        obtain ⟨requests, given⟩ := alloc_mem_events member
        obtain ⟨other, same, outside⟩ := granted requests
        obtain rfl := Option.some.inj (given.symm.trans same)
        exact outside
      have allocates (here : call.pc.allocates = true) :
          loaded.state.isFresh kmalloc = true :=
        assumed.1 (by rw [found, Option.map_some, here])
      have locking := (run_moves found moved).locked found accounts.locking
      rw [events]
      rcases Option.or_eq_some_iff.mp effected with entered | ⟨-, returned⟩
      · refine ⟨paired, ?_, locking, balanced.books ?_ fresh⟩
        · exact located_effect accounts.paired found accounts.located
            (entryStep_effect accounts.paired found allocates entered)
        · exact entryStep_books accounts.paired found
            (fun requests => (granted requests).imp fun _ both => both.1) entered
      · refine ⟨paired, ?_, locking, balanced.books ?_ fresh⟩
        · exact located_effect accounts.paired found accounts.located
            (retStep_effect accounts.paired found returned)
        · exact retStep_books accounts.paired found returned
  | ret self regs =>
      obtain ⟨call, found, changed⟩ := Option.bind_eq_some_iff.mp moved
      split at changed
      · rename_i here
        cases changed
        refine ⟨paired, ?_, ?_, balanced.books (.quiet rfl ?_) (by simp [Action.events])⟩
        · refine accounts.located.trans (.append_left _ (held_same _ found ?_).symm)
          simp [Call.held, here]
        · have moves : Moves loaded.state self call _ := ⟨_, return_moved here regs⟩
          exact moves.locked found accounts.locking
        · exact pathsMade_same found rfl (by simp [here])
      · simp at changed

theorem probePoolClear_eq {pool : ProbePool} {entries : List Addr} {fuel : Nat}
    (nodup : (addrs pool.root).Nodup) (shape : addrs pool.root = entries)
    (enough : entries.length < fuel) :
    ∃ final, probePoolClear routines fuel pool = some (entries, final) ∧ addrs final.root = [] := by
  induction entries generalizing pool fuel with
  | nil =>
      obtain ⟨more, rfl⟩ : ∃ more, fuel = more + 1 := ⟨fuel - 1, by omega⟩
      refine ⟨pool, ?_, shape⟩
      rw [probePoolClear, routines.rbFirst_eq, shape]
      rfl
  | cons entry rest ih =>
      obtain ⟨more, rfl⟩ : ∃ more, fuel = more + 1 := ⟨fuel - 1, by omega⟩
      obtain ⟨first, erased, restNodup⟩ := routines.first_erased nodup shape
      obtain ⟨final, freed, empty⟩ := @ih { pool with root := routines.rbErase entry pool.root } more
        restNodup erased (by simpa using enough)
      refine ⟨final, ?_, empty⟩
      rw [probePoolClear, first]
      simp only
      rw [freed]
      rfl

def State.Quiet (state : State) : Prop := ∀ call ∈ state.calls, call.pc = .body ∨ call.pc = .done

theorem Module.Accounts.unlocked (accounts : loaded.Accounts) (quiet : loaded.state.Quiet) :
    loaded.state.lock = none := by
  rw [Option.eq_none_iff_forall_not_mem]
  intro owner held
  obtain ⟨call, found, inside⟩ := accounts.locking owner held
  rcases quiet call (List.mem_of_getElem? found) with here | here <;> simp [here] at inside

theorem pathsMade_quiet (quiet : state.Quiet) : state.pathsMade = state.calls.length := by
  refine List.countP_eq_length.mpr fun call among => ?_
  rcases quiet call among with here | here <;> simp [here]

theorem hookExit_some (accounts : loaded.Accounts) (quiet : loaded.state.Quiet) {fuel : Nat}
    (enough : (addrs loaded.state.pool.root).length < fuel) :
    ∃ after, hookExit routines fuel loaded = some after ∧
      after.log = loaded.log ++ (addrs loaded.state.pool.root ++ [loaded.probePool]).map .free := by
  obtain ⟨pool, cleared, -⟩ := @probePoolClear_eq routines _ _ fuel
    accounts.paired.pooled.ordered.nodup rfl enough
  refine ⟨_, by rw [hookExit, if_pos (accounts.unlocked quiet), cleared, Option.map_some], ?_⟩
  simp

theorem accounts_exit (accounts : loaded.Accounts) (quiet : loaded.state.Quiet) {after : Module}
    (log : after.log = loaded.log ++
      (addrs loaded.state.pool.root ++ [loaded.probePool]).map .free) :
    ∃ live lost, run Ledger.step (fun _ => false) after.log = some live ∧
      Owned (fun _ => false) live (lost ++ loaded.state.calls.flatMap Call.held) ∧
      lost.length = loaded.state.calls.length := by
  obtain ⟨live, lost, balanced⟩ := accounts.balanced
  have order : (lost ++ loaded.probePool :: loaded.state.live).Perm
      ((addrs loaded.state.pool.root ++ [loaded.probePool]) ++
        (lost ++ loaded.state.calls.flatMap Call.held)) := by
    refine ((accounts.located.cons loaded.probePool).append_left lost).trans ?_
    refine List.perm_iff_count.mpr fun block => ?_
    simp only [List.count_append, List.count_cons, List.count_nil]
    omega
  obtain ⟨final, freed, left⟩ := (balanced.owned.perm order).free_all
  refine ⟨final, lost, ?_, left, balanced.paths.trans (pathsMade_quiet quiet)⟩
  rw [log, run_append, balanced.replayed]
  exact freed

/-- Every block is freed at most once and only while it is live; all of them have been freed once
when `hook_exit` returns exactly when no call was ever made.  A path is left for every call, a record
for every call that has not returned, and nothing else. -/
theorem khook_frees_iff (routines : RbRoutines) (probePool : Addr) (entries : Addr → MyEntry)
    (heap : Addr → MountParams) (actions : List Action) (final : Module)
    (assumed : EachStep (moduleStep routines) Module.Assumed (hookInit probePool entries heap) actions)
    (ran : run (moduleStep routines) (hookInit probePool entries heap) actions = some final)
    (quiet : final.state.Quiet) (fuel : Nat)
    (enough : (addrs final.state.pool.root).length < fuel) :
    ∃ after lost, hookExit routines fuel final = some after ∧
      (run Ledger.step (fun _ => false) after.log).isSome = true ∧
      (FreedOnce after.log ↔ final.state.calls = []) ∧
      lost.length = final.state.calls.length ∧
      (lost ++ final.state.calls.flatMap Call.held).Nodup ∧
      after.live = (lost ++ final.state.calls.flatMap Call.held).toFinset := by
  have accounts : final.Accounts := run_invariant_eachStep
    (fun _ _ _ condition accounts stepped => accounts_step condition accounts stepped)
    (accounts_start probePool entries heap) assumed ran
  obtain ⟨after, exited, log⟩ := @hookExit_some routines final accounts quiet fuel enough
  obtain ⟨live, lost, replayed, owned, paths⟩ := accounts_exit accounts quiet log
  refine ⟨after, lost, exited, by rw [replayed]; rfl, ?_, paths, owned.distinct, ?_⟩
  · rw [owned.freedOnce_iff replayed (fun _ _ => rfl), List.append_eq_nil_iff]
    constructor
    · rintro ⟨none, -⟩
      rw [none] at paths
      exact List.length_eq_zero_iff.mp paths.symm
    · intro none
      rw [none] at paths ⊢
      exact ⟨List.length_eq_zero_iff.mp paths, rfl⟩
  · ext block
    have settled : live block = true ↔ block ∈ after.live :=
      mem_settle_iff (by simp) replayed block
    rw [← settled, owned.live_iff, List.mem_toFinset]
    simp

def enterWith (self params path entry : Nat) : List Action :=
  [.run self (some params), .run self (some path), .run self none, .run self none,
    .run self (some entry), .run self none, .run self none]

def oneReturned : List Action :=
  [.call 4096 (some someRegs) someMemory, .call 8192 (some someRegs) someMemory] ++
    enterWith 0 16 24 32 ++ enterWith 1 48 56 64 ++ leave 0

def loadedAt1024 : Module := hookInit 1024 (fun _ => ⟨0, 0⟩) fun _ => ⟨[], [], [], 0⟩

theorem khook_frees_iff_oneReturned :
    ∃ final after lost, run (moduleStep RbTree.plainRoutines) loadedAt1024 oneReturned = some final ∧
      hookExit RbTree.plainRoutines 3 final = some after ∧
      (FreedOnce after.log ↔ final.state.calls = []) ∧ lost.length = final.state.calls.length ∧
      after.live = (lost ++ final.state.calls.flatMap Call.held).toFinset := by
  have observed : (run (moduleStep RbTree.plainRoutines) loadedAt1024 oneReturned).map (fun final =>
      (final.state.calls.map Call.pc, (addrs final.state.pool.root).length)) =
        some ([.done, .body], 1) := by decide +kernel
  obtain ⟨final, ran, shape⟩ := Option.map_eq_some_iff.mp observed
  obtain ⟨pcs, size⟩ := Prod.mk.inj shape
  have quiet : final.state.Quiet := by
    intro call among
    have member := List.mem_map_of_mem (f := Call.pc) among
    rw [pcs] at member
    simpa [or_comm] using member
  obtain ⟨after, lost, exited, -, freed, paths, -, left⟩ := khook_frees_iff RbTree.plainRoutines
    1024 (fun _ => ⟨0, 0⟩) (fun _ => ⟨[], [], [], 0⟩) oneReturned final (by decide +kernel) ran quiet
    3 (by omega)
  exact ⟨final, after, lost, ran, exited, freed, paths, left⟩

theorem khook_leaks_path :
    EachStep (moduleStep RbTree.plainRoutines) Module.Assumed loadedAt1024
        (.call 4096 (some someRegs) someMemory :: enterWith 0 16 24 32 ++ leave 0) ∧
      ∃ final after, run (moduleStep RbTree.plainRoutines) loadedAt1024
          (.call 4096 (some someRegs) someMemory :: enterWith 0 16 24 32 ++ leave 0) = some final ∧
        final.state.calls.map Call.pc = [.done] ∧
        hookExit RbTree.plainRoutines 1 final = some after ∧ after.live = {24} ∧
        ¬FreedOnce after.log := by
  refine ⟨by decide +kernel, ?_⟩
  have observed : (run (moduleStep RbTree.plainRoutines) loadedAt1024
      (.call 4096 (some someRegs) someMemory :: enterWith 0 16 24 32 ++ leave 0)).map (fun final =>
        (final.state.calls.map Call.pc, (hookExit RbTree.plainRoutines 1 final).map Module.log)) =
      some ([.done], some [.alloc 1024, .alloc 16, .alloc 24, .alloc 32, .free 32, .free 16,
        .free 1024]) := by decide +kernel
  obtain ⟨final, ran, shape⟩ := Option.map_eq_some_iff.mp observed
  obtain ⟨pcs, exits⟩ := Prod.mk.inj shape
  obtain ⟨after, exited, log⟩ := Option.map_eq_some_iff.mp exits
  refine ⟨final, after, ran, pcs, exited, ?_, ?_⟩
  · rw [Module.live, log]
    decide
  · rw [log]
    decide

end LearnK.Hook
