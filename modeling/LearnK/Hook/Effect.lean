import LearnK.Hook.Core
import LearnK.RbTree.Keyed

/-! What is assumed of the kernel around the probe, the phases of a call, and the invariant that
holds its record, its instance and its place in the pool together. -/

namespace LearnK.Hook

open SearchTree Function
open LearnK.RbTree (Addr RbNode RbRoot RbRoutines addrs eexist)

@[simp] def Pc.inFlight : Pc → Bool
  | .done => false
  | _ => true

@[simp] def Pc.allocates : Pc → Bool
  | .kmalloc | .link _ => true
  | _ => false

@[simp] def Pc.owns : Pc → Bool
  | .kmalloc | .done => false
  | _ => true

@[simp] def Pc.filled : Pc → Bool
  | .kmalloc | .copy | .done => false
  | _ => true

@[simp] def Pc.stored : Pc → Bool
  | .unlockInsert | .printEntry | .body | .readAx _ | .lockPop | .search | .erase _ => true
  | _ => false

@[simp] def Pc.hasPopped : Pc → Bool
  | .unlockPop | .printReturn | .kfree | .done => true
  | _ => false

@[simp] def Pc.hasSeen : Pc → Bool
  | .kfree | .done => true
  | _ => false

@[simp] def Pc.critical : Pc → Bool
  | .descend | .link _ | .unlockInsert | .search | .erase _ | .unlockPop => true
  | _ => false

def Pc.Located (pool : ProbePool) (ri : UInt64) : Pc → Prop
  | .link new => new = findNew ri pool
  | .erase entry => entry = searchNode ri pool
  | _ => True

def State.isFresh (state : State) : Option Addr → Bool
  | none => false
  | some addr => !state.live.contains addr

/-- The kretprobe core hands out instances that no call in flight uses, registers are there, and
`kmalloc` finds a block that is not in use. -/
def Assumed (state : State) : Action → Prop
  | .call ri regs _ => ri ≠ 0 ∧ regs.isSome = true ∧
      ∀ call ∈ state.calls, call.pc.inFlight = true → call.ri ≠ ri
  | .run self kmalloc => (state.calls[self]?.map fun call => call.pc.allocates) = some true →
      state.isFresh kmalloc = true
  | .ret _ regs => regs.isSome = true

instance (state : State) : ∀ action, Decidable (Assumed state action)
  | .call _ _ _ => inferInstanceAs (Decidable (_ ∧ _ ∧ _))
  | .run _ _ => inferInstanceAs (Decidable (_ → _))
  | .ret _ _ => inferInstanceAs (Decidable (_ = _))

structure Call.Good (state : State) (call : Call) : Prop where
  located : call.pc.Located state.pool call.ri
  flight : call.pc.inFlight = true → call.ri ≠ 0 ∧ call.regs.isSome = true
  owned : call.pc.owns = true → ∃ params, call.params = some params ∧ params ∈ state.live ∧
    params ∉ addrs state.pool.root
  filled : call.pc.filled = true → ∃ params, call.params = some params ∧
    call.copied = some (state.heap params)
  popped : call.pc.hasPopped = true → call.params.isSome = true ∧ call.popped = call.params
  seen : call.pc.hasSeen = true → call.copied.isSome = true ∧ call.seen = call.copied

structure Apart (state : State) : Prop where
  locked : ∀ (self : Nat) (call : Call), state.calls[self]? = some call →
    call.pc.critical = true → state.lock = some self
  instances : ∀ (first second : Nat) (call other : Call), state.calls[first]? = some call →
    state.calls[second]? = some other → call.pc.inFlight = true → other.pc.inFlight = true →
    call.ri = other.ri → first = second
  blocks : ∀ (first second : Nat) (call other : Call), state.calls[first]? = some call →
    state.calls[second]? = some other → call.pc.owns = true → other.pc.owns = true →
    call.params = other.params → first = second

structure Pooled (state : State) : Prop where
  ordered : Ordered state.pool.keyAt (addrs state.pool.root)
  live : ∀ entry ∈ addrs state.pool.root, entry ∈ state.live
  sound : ∀ entry ∈ addrs state.pool.root, ∃ (self : Nat) (call : Call),
    state.calls[self]? = some call ∧ call.pc.stored = true ∧
      state.pool.entries entry = ⟨call.ri, call.params.getD 0⟩
  complete : ∀ (self : Nat) (call : Call), state.calls[self]? = some call →
    call.pc.stored = true → ∃ entry ∈ addrs state.pool.root, state.pool.keyAt entry = call.ri

structure Paired (state : State) : Prop where
  good : ∀ (self : Nat) (call : Call), state.calls[self]? = some call → call.Good state
  apart : Apart state
  pooled : Pooled state

structure Pc.Like (pc other : Pc) : Prop where
  inFlight : other.inFlight = pc.inFlight
  owns : other.owns = pc.owns
  filled : other.filled = pc.filled
  stored : other.stored = pc.stored
  hasPopped : other.hasPopped = pc.hasPopped
  hasSeen : other.hasSeen = pc.hasSeen

inductive LockMove (self : Nat) (pc other : Pc) (lock : Option Nat) : Option Nat → Prop
  | keep (same : other.critical = pc.critical) : LockMove self pc other lock lock
  | acquire (free : lock = none) : LockMove self pc other lock (some self)
  | release (inside : pc.critical = true) (outside : other.critical = false) :
      LockMove self pc other lock none

inductive Effect (routines : RbRoutines) (state : State) (self : Nat) (call : Call) : State → Prop
  | quiet (pc : Pc) (ret : Int) (lock : Option Nat) (like : call.pc.Like pc)
      (located : pc.Located state.pool call.ri) (moved : LockMove self call.pc pc state.lock lock) :
      Effect routines state self call
        { state.goto self { call with ret := ret, pc := pc } with lock := lock }
  | allocate (params : Addr) (here : call.pc = .kmalloc) (fresh : params ∉ state.live) :
      Effect routines state self call
        { state.goto self { call with params := some params, pc := .copy } with
          live := params :: state.live }
  | copy (params : Addr) (record : MountParams) (here : call.pc = .copy)
      (owned : call.params = some params) :
      Effect routines state self call
        { state.goto self { call with copied := some record, pc := .lockInsert } with
          heap := update state.heap params record }
  | insert (params entry : Addr) (slot : List Turn) (here : call.pc = .link (some slot))
      (owned : call.params = some params) (fresh : entry ∉ state.live)
      (found : findNew call.ri state.pool = some slot) :
      Effect routines state self call
        { state.goto self { call with pc := .unlockInsert } with
          pool :=
            { root := routines.rbInsertColor entry (linkAt ⟨entry, .red⟩ slot state.pool.root)
              entries := update state.pool.entries entry ⟨call.ri, params⟩ }
          live := entry :: state.live }
  | pop (entry : Addr) (here : call.pc = .erase (some entry))
      (found : searchNode call.ri state.pool = some entry) :
      Effect routines state self call
        { state.goto self { call with popped := some (state.pool.entries entry).params,
                                      pc := .unlockPop } with
          pool := { state.pool with root := routines.rbErase entry state.pool.root }
          live := state.live.erase entry }
  | print (params : Addr) (here : call.pc = .printReturn) (popped : call.popped = some params) :
      Effect routines state self call
        (state.goto self { call with seen := some (state.heap params), pc := .kfree })
  | free (params : Addr) (here : call.pc = .kfree) (popped : call.popped = some params) :
      Effect routines state self call
        { state.goto self { call with pc := .done } with live := state.live.erase params }

theorem Pooled.stored_of_mem {state : State} (apart : Apart state) (pooled : Pooled state)
    {self : Nat} {call : Call} (found : state.calls[self]? = some call)
    (flying : call.pc.inFlight = true) {entry : Addr} (member : entry ∈ addrs state.pool.root)
    (key : state.pool.keyAt entry = call.ri) :
    call.pc.stored = true ∧ (state.pool.entries entry).params = call.params.getD 0 := by
  obtain ⟨other, call', found', stored, content⟩ := pooled.sound entry member
  have same : call'.ri = call.ri := by
    rw [← key, ProbePool.keyAt, content]
  have flying' : call'.pc.inFlight = true := by
    cases pc : call'.pc <;> simp [pc, Pc.stored] at stored <;> rfl
  obtain rfl := apart.instances other self call' call found' found flying' flying same
  obtain rfl := Option.some.inj (found'.symm.trans found)
  exact ⟨stored, by rw [content]⟩

theorem findNew_eq_none_iff (key : UInt64) (pool : ProbePool) :
    findNew key pool = none ↔ (searchNode key pool).isSome = true := by
  rw [findNew, findSlot_eq_none_iff, searchNode, Option.isSome_map]

theorem searchNode_some {key : UInt64} {pool : ProbePool} {entry : Addr}
    (found : searchNode key pool = some entry) :
    entry ∈ addrs pool.root ∧ pool.keyAt entry = key :=
  RbTree.find_addr_some found

theorem findNew_isSome {state : State} (paired : Paired state) {self : Nat} {call : Call}
    (found : state.calls[self]? = some call) (flying : call.pc.inFlight = true)
    (outside : call.pc.stored = false) : ∃ slot, findNew call.ri state.pool = some slot := by
  rw [← Option.isSome_iff_exists, Option.isSome_iff_ne_none, Ne, findNew_eq_none_iff]
  intro present
  obtain ⟨entry, met⟩ := Option.isSome_iff_exists.mp present
  obtain ⟨member, key⟩ := searchNode_some met
  have stored := (paired.pooled.stored_of_mem paired.apart found flying member key).1
  exact Bool.false_ne_true (outside.symm.trans stored)

theorem searchNode_isSome {state : State} (paired : Paired state) {self : Nat} {call : Call}
    (found : state.calls[self]? = some call) (stored : call.pc.stored = true) :
    ∃ entry, searchNode call.ri state.pool = some entry := by
  rw [← Option.isSome_iff_exists, Option.isSome_iff_ne_none]
  intro missing
  obtain ⟨entry, member, key⟩ := paired.pooled.complete self call found stored
  exact RbTree.find_addr_none paired.pooled.ordered missing entry member key

theorem Paired.link_slot {state : State} (paired : Paired state) {self : Nat} {call : Call}
    (found : state.calls[self]? = some call) {new : Option (List Turn)} (pc : call.pc = .link new) :
    ∃ slot, new = some slot ∧ findNew call.ri state.pool = some slot := by
  obtain ⟨slot, free⟩ := findNew_isSome paired found (by simp [pc]) (by simp [pc])
  have located := (paired.good self call found).located
  rw [pc] at located
  exact ⟨slot, Eq.trans located free, free⟩

theorem Paired.erase_entry {state : State} (paired : Paired state) {self : Nat} {call : Call}
    (found : state.calls[self]? = some call) {target : Option Addr} (pc : call.pc = .erase target) :
    ∃ entry, target = some entry ∧ searchNode call.ri state.pool = some entry := by
  obtain ⟨entry, met⟩ := searchNode_isSome paired found (by simp [pc])
  have located := (paired.good self call found).located
  rw [pc] at located
  exact ⟨entry, Eq.trans located met, met⟩

theorem Call.Good.copy_reads {state : State} {call : Call} (good : call.Good state)
    (pc : call.pc = .copy) :
    call.ri > 0 ∧ ∃ regs params, call.regs = some regs ∧ call.params = some params := by
  obtain ⟨nonzero, present⟩ := good.flight (by simp [pc])
  obtain ⟨regs, registers⟩ := Option.isSome_iff_exists.mp present
  obtain ⟨params, owned, -, -⟩ := good.owned (by simp [pc])
  exact ⟨UInt64.pos_iff_ne_zero.mpr nonzero, regs, params, registers, owned⟩

theorem State.fresh_of {state : State} {kmalloc : Option Addr}
    (fresh : state.isFresh kmalloc = true) : ∃ addr, kmalloc = some addr ∧ addr ∉ state.live := by
  cases kmalloc with
  | none => simp [State.isFresh] at fresh
  | some addr => exact ⟨addr, rfl, by simpa [State.isFresh] using fresh⟩

theorem entryStep_effect {routines : RbRoutines} {self : Nat} {kmalloc : Option Addr} {call : Call}
    {state next : State} (paired : Paired state) (found : state.calls[self]? = some call)
    (fresh : call.pc.allocates = true → state.isFresh kmalloc = true)
    (stepped : entryStep routines self kmalloc call state = some next) :
    Effect routines state self call next := by
  have good := paired.good self call found
  cases pc : call.pc with
  | kmalloc =>
      obtain ⟨params, rfl, outside⟩ := State.fresh_of (fresh (by simp [pc]))
      simp only [entryStep, pc] at stepped
      cases stepped
      exact .allocate params pc outside
  | copy =>
      obtain ⟨positive, regs, params, registers, owned⟩ := good.copy_reads pc
      simp only [entryStep, pc, positive, if_true] at stepped
      split at stepped
      · rename_i missing
        simp [registers] at missing
      · split at stepped
        · rename_i missing
          simp [owned] at missing
        · rename_i block held
          obtain ⟨record, -, rfl⟩ := Option.map_eq_some_iff.mp stepped
          exact .copy block record pc held
  | lockInsert =>
      simp only [entryStep, pc] at stepped
      split at stepped <;> cases stepped
      rename_i free
      refine .quiet .descend call.ret (some self) ?_ trivial (.acquire free)
      constructor <;> simp [pc]
  | descend =>
      simp only [entryStep, pc] at stepped
      cases stepped
      refine .quiet (.link _) call.ret state.lock ?_ rfl (.keep ?_)
      · constructor <;> simp [pc]
      · simp [pc]
  | link new =>
      obtain ⟨entry, rfl, outside⟩ := State.fresh_of (fresh (by simp [pc]))
      obtain ⟨slot, rfl, free⟩ := paired.link_slot found pc
      simp only [entryStep, pc] at stepped
      obtain ⟨block, held, linked⟩ := Option.bind_eq_some_iff.mp stepped
      cases linked
      exact .insert block entry slot pc held outside free
  | unlockInsert =>
      simp only [entryStep, pc] at stepped
      cases stepped
      refine .quiet .printEntry call.ret none ?_ trivial (.release (by simp [pc]) rfl)
      constructor <;> simp [pc]
  | printEntry =>
      simp only [entryStep, pc] at stepped
      obtain ⟨params, -, rfl⟩ := Option.map_eq_some_iff.mp stepped
      refine .quiet .body call.ret state.lock ?_ trivial (.keep (by simp [pc]))
      constructor <;> simp [pc]
  | body | readAx | lockPop | search | erase | unlockPop | printReturn | kfree | done =>
      simp [entryStep, pc] at stepped

theorem retStep_effect {routines : RbRoutines} {self : Nat} {call : Call} {state next : State}
    (paired : Paired state) (found : state.calls[self]? = some call)
    (stepped : retStep routines self call state = some next) :
    Effect routines state self call next := by
  have good := paired.good self call found
  cases pc : call.pc with
  | readAx regs =>
      simp only [retStep, pc] at stepped
      obtain ⟨regs, -, rfl⟩ := Option.map_eq_some_iff.mp stepped
      refine .quiet .lockPop _ state.lock ?_ trivial (.keep (by simp [pc]))
      constructor <;> simp [pc]
  | lockPop =>
      simp only [retStep, pc] at stepped
      split at stepped <;> cases stepped
      rename_i free
      refine .quiet .search call.ret (some self) ?_ trivial (.acquire free)
      constructor <;> simp [pc]
  | search =>
      simp only [retStep, pc] at stepped
      cases stepped
      refine .quiet (.erase _) call.ret state.lock ?_ rfl (.keep (by simp [pc]))
      constructor <;> simp [pc]
  | erase target =>
      obtain ⟨entry, rfl, met⟩ := paired.erase_entry found pc
      simp only [retStep, pc, eraseNode, Option.elim_some] at stepped
      cases stepped
      exact .pop entry pc met
  | unlockPop =>
      simp only [retStep, pc] at stepped
      cases stepped
      refine .quiet .printReturn call.ret none ?_ trivial (.release (by simp [pc]) rfl)
      constructor <;> simp [pc]
  | printReturn =>
      obtain ⟨present, same⟩ := good.popped (by simp [pc])
      obtain ⟨params, owned⟩ := Option.isSome_iff_exists.mp present
      rw [owned] at same
      simp only [retStep, pc] at stepped
      split at stepped
      · rename_i missing
        simp [same] at missing
      · rename_i block held
        split at stepped <;> cases stepped
        exact .print block pc held
  | kfree =>
      simp only [retStep, pc] at stepped
      obtain ⟨params, same, rfl⟩ := Option.map_eq_some_iff.mp stepped
      exact .free params pc same
  | kmalloc | copy | lockInsert | descend | link | unlockInsert | printEntry | body | done =>
      simp [retStep, pc] at stepped

end LearnK.Hook
