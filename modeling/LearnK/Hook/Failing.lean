import LearnK.Hook.Moves
import LearnK.Hook.Pairing

/-! Runs in which allocations may fail.  A call whose record was not allocated never gets past the
print at the end of `entry_handler`, and the others go on as if it had not begun. -/

namespace LearnK.Hook

open StepMachine
open LearnK.RbTree (Addr RbRoutines)

def Possible (state : State) : Action → Prop
  | .run self kmalloc => (state.calls[self]?.map fun call => call.pc.allocates) = some true →
      kmalloc = none ∨ state.isFresh kmalloc = true
  | action => Assumed state action

instance (state : State) : ∀ action, Decidable (Possible state action)
  | .call ri regs memory => inferInstanceAs (Decidable (Assumed state (.call ri regs memory)))
  | .run _ _ => inferInstanceAs (Decidable (_ → _))
  | .ret self regs => inferInstanceAs (Decidable (Assumed state (.ret self regs)))

def Call.revived (call : Call) : Call :=
  if call.params = none then { call with pc := .kmalloc } else call

def State.revived (state : State) : State := { state with calls := state.calls.map Call.revived }

structure Survives (state : State) : Prop where
  paired : Paired state.revived
  stuck : ∀ call ∈ state.calls, call.params = none →
    call.pc = .kmalloc ∨ call.pc = .copy ∨ call.pc = .printEntry
  started : ∀ call ∈ state.calls, call.pc = .kmalloc → call.params = none

variable {routines : RbRoutines} {state next : State} {self : Nat} {call : Call}

theorem Call.revived_of_params (held : call.params.isSome = true) : call.revived = call := by
  refine if_neg ?_
  intro none
  simp [none] at held

theorem Call.revived_of_none (missing : call.params = none) :
    call.revived = { call with pc := .kmalloc } := if_pos missing

@[simp] theorem Call.revived_ri (call : Call) : call.revived.ri = call.ri := by
  rw [Call.revived]
  split <;> rfl

theorem State.revived_get (found : state.calls[self]? = some call) :
    state.revived.calls[self]? = some call.revived := by
  rw [State.revived, List.getElem?_map, found]
  rfl

theorem Survives.good (survives : Survives state) (found : state.calls[self]? = some call)
    (held : call.params.isSome = true) : call.Good state.revived := by
  have there := survives.paired.good self _ (State.revived_get found)
  rwa [call.revived_of_params held] at there

theorem entryStep_frame {kmalloc : Option Addr}
    (stepped : entryStep routines self kmalloc call state = some next) (others : List Call) :
    ∃ moved, next.calls = state.calls.set self moved ∧
      entryStep routines self kmalloc call { state with calls := others } =
        some { next with calls := others.set self moved } := by
  cases pc : call.pc with
  | copy =>
      simp only [entryStep, pc] at stepped ⊢
      split at stepped
      · cases stepped
        exact ⟨_, rfl, rfl⟩
      · split at stepped
        · cases stepped
          exact ⟨_, rfl, rfl⟩
        · split at stepped
          · rename_i positive
            obtain ⟨record, copied, rfl⟩ := Option.map_eq_some_iff.mp stepped
            exact ⟨_, rfl, by rw [if_pos positive, copied]; rfl⟩
          · rename_i zero
            cases stepped
            exact ⟨_, rfl, if_neg zero⟩
  | lockInsert =>
      simp only [entryStep, pc] at stepped ⊢
      split at stepped <;> cases stepped
      rename_i free
      exact ⟨_, rfl, if_pos free⟩
  | link new =>
      simp only [entryStep, pc] at stepped ⊢
      obtain ⟨block, mine, linked⟩ := Option.bind_eq_some_iff.mp stepped
      obtain ⟨outcome, answered, rfl⟩ := Option.map_eq_some_iff.mp linked
      exact ⟨_, rfl, by rw [mine, Option.bind_some, answered]; rfl⟩
  | printEntry =>
      simp only [entryStep, pc] at stepped ⊢
      obtain ⟨block, mine, rfl⟩ := Option.map_eq_some_iff.mp stepped
      exact ⟨_, rfl, by rw [mine]; rfl⟩
  | kmalloc | descend | unlockInsert =>
      simp only [entryStep, pc] at stepped ⊢
      cases stepped
      exact ⟨_, rfl, rfl⟩
  | body | readAx | lockPop | search | erase | unlockPop | printReturn | kfree | done =>
      simp [entryStep, pc] at stepped

theorem retStep_frame (stepped : retStep routines self call state = some next)
    (others : List Call) :
    ∃ moved, next.calls = state.calls.set self moved ∧
      retStep routines self call { state with calls := others } =
        some { next with calls := others.set self moved } := by
  cases pc : call.pc with
  | readAx regs =>
      simp only [retStep, pc] at stepped ⊢
      obtain ⟨regs, returned, rfl⟩ := Option.map_eq_some_iff.mp stepped
      exact ⟨_, rfl, by rw [returned]; rfl⟩
  | lockPop =>
      simp only [retStep, pc] at stepped ⊢
      split at stepped <;> cases stepped
      rename_i free
      exact ⟨_, rfl, if_pos free⟩
  | printReturn =>
      simp only [retStep, pc] at stepped ⊢
      split at stepped
      · cases stepped
        exact ⟨_, rfl, rfl⟩
      · split at stepped <;> cases stepped
        rename_i live
        exact ⟨_, rfl, if_pos live⟩
  | kfree =>
      simp only [retStep, pc] at stepped ⊢
      obtain ⟨params, popped, rfl⟩ := Option.map_eq_some_iff.mp stepped
      exact ⟨_, rfl, by rw [popped]; rfl⟩
  | search | erase | unlockPop =>
      simp only [retStep, pc] at stepped ⊢
      cases stepped
      exact ⟨_, rfl, rfl⟩
  | kmalloc | copy | lockInsert | descend | link | unlockInsert | printEntry | body | done =>
      simp [retStep, pc] at stepped

theorem entryStep_of_ret {kmalloc : Option Addr}
    (returned : (retStep routines self call state).isSome = true) (other : State) :
    entryStep routines self kmalloc call other = none := by
  cases pc : call.pc <;> simp [retStep, entryStep, pc] at returned ⊢

theorem revived_moved {moved : Call} (calls : next.calls = state.calls.set self moved)
    (owns : moved.params.isSome = true) :
    ({ next with calls := state.revived.calls.set self moved } : State) = next.revived := by
  simp only [State.revived, calls, List.map_set, Call.revived_of_params owns]

theorem Moves.keeps (moves : Moves state self call next) (found : state.calls[self]? = some call)
    (begun : call.pc ≠ .kmalloc) {moved : Call} (calls : next.calls = state.calls.set self moved) :
    moved.params = call.params ∧ moved.pc ≠ .kmalloc := by
  obtain ⟨other, effect⟩ := moves
  obtain rfl := Numbered.set_inj found (effect.calls.symm.trans calls)
  exact effect.params.resolve_left begun

theorem run_revived {kmalloc : Option Addr} (found : state.calls[self]? = some call)
    (alive : call.revived = call)
    (owns : ∀ moved : Call, next.calls = state.calls.set self moved → moved.params.isSome = true)
    (stepped : step routines state (.run self kmalloc) = some next) :
    step routines state.revived (.run self kmalloc) = some next.revived := by
  have there := State.revived_get found
  rw [alive] at there
  rw [step, found, Option.bind_some] at stepped
  rw [step, there, Option.bind_some]
  rcases Option.or_eq_some_iff.mp stepped with entered | ⟨-, returned⟩
  · obtain ⟨moved, calls, framed⟩ := entryStep_frame entered state.revived.calls
    rw [revived_moved calls (owns moved calls)] at framed
    exact Option.or_eq_some_iff.mpr (.inl framed)
  · obtain ⟨moved, calls, framed⟩ := retStep_frame returned state.revived.calls
    rw [revived_moved calls (owns moved calls)] at framed
    exact Option.or_eq_some_iff.mpr (.inr ⟨entryStep_of_ret (by rw [framed]; rfl) _, framed⟩)

theorem dead_step {kmalloc : Option Addr} (survives : Survives state)
    (found : state.calls[self]? = some call) (missing : call.params = none)
    (failed : call.pc = .kmalloc → kmalloc = none)
    (stepped : step routines state (.run self kmalloc) = some next) :
    next.revived = state.revived ∧ ∃ moved : Call, next.calls = state.calls.set self moved ∧
      moved.params = none ∧ (moved.pc = .copy ∨ moved.pc = .printEntry) := by
  have good := survives.paired.good self _ (State.revived_get found)
  rw [Call.revived_of_none missing] at good
  have registered : call.regs.isSome = true := (good.flight rfl).2
  have unchanged (moved : Call) (kept : moved.revived = call.revived) :
      (state.goto self moved).revived = state.revived := by
    have there := State.revived_get found
    obtain ⟨bound, here⟩ := List.getElem?_eq_some_iff.mp there
    have same : state.revived.calls.set self moved.revived = state.revived.calls := by
      rw [kept, ← here, List.set_getElem_self]
    rw [State.revived, State.goto, List.map_set]
    exact congrArg (fun calls => ({ state with calls := calls } : State)) same
  rw [step, found, Option.bind_some] at stepped
  rcases survives.stuck call (List.mem_of_getElem? found) missing with pc | pc | pc
  · obtain rfl := failed pc
    simp only [entryStep, pc, Option.some_or, Option.some.injEq] at stepped
    subst stepped
    refine ⟨unchanged { call with params := none, pc := .copy } ?_, _, rfl, rfl, .inl rfl⟩
    rw [Call.revived_of_none missing, Call.revived_of_none rfl, missing]
  · obtain ⟨regs, registers⟩ := Option.isSome_iff_exists.mp registered
    have printed : next = state.goto self { call with pc := .printEntry } := by
      have entered : entryStep routines self kmalloc call state =
          some (state.goto self { call with pc := .printEntry }) := by
        simp only [entryStep, pc]
        split
        · rename_i absent
          simp [registers] at absent
        · split
          · rfl
          · rename_i held
            simp [missing] at held
      rw [entered, Option.some_or, Option.some.injEq] at stepped
      exact stepped.symm
    subst printed
    refine ⟨unchanged _ ?_, _, rfl, missing, .inr rfl⟩
    rw [call.revived_of_none missing]
    exact Call.revived_of_none missing
  · simp [entryStep, retStep, pc, missing] at stepped

theorem survives_goto {moved : Call} (survives : Survives state) (paired : Paired next.revived)
    (calls : next.calls = state.calls.set self moved)
    (stuck : moved.params = none → moved.pc = .kmalloc ∨ moved.pc = .copy ∨ moved.pc = .printEntry)
    (started : moved.pc = .kmalloc → moved.params = none) : Survives next := by
  have among {other : Call} (member : other ∈ next.calls) : other = moved ∨ other ∈ state.calls := by
    rw [calls] at member
    exact (List.mem_or_eq_of_mem_set member).symm
  refine ⟨paired, fun other member missing => ?_, fun other member here => ?_⟩
  · rcases among member with rfl | old
    · exact stuck missing
    · exact survives.stuck other old missing
  · rcases among member with rfl | old
    · exact started here
    · exact survives.started other old here

theorem link_null {new : Option (List SearchTree.Turn)} (paired : Paired state)
    (found : state.calls[self]? = some call) (pc : call.pc = .link new) :
    step routines state (.run self none) = none := by
  obtain ⟨slot, rfl, -⟩ := paired.link_slot found pc
  have stops (params : Addr) : linkNode routines none call.ri params (some slot) state.pool = none :=
    rfl
  simp [step, found, entryStep, retStep, pc, stops]

theorem alive_moved {kmalloc : Option Addr} (survives : Survives state)
    (found : state.calls[self]? = some call)
    (given : call.pc = .kmalloc ∧ kmalloc.isSome = true ∨ call.params.isSome = true)
    (stepped : step routines state (.run self kmalloc) = some next) (moved : Call)
    (calls : next.calls = state.calls.set self moved) :
    moved.params.isSome = true ∧ moved.pc ≠ .kmalloc := by
  by_cases start : call.pc = .kmalloc
  · have got : kmalloc.isSome = true := by
      rcases given with ⟨-, got⟩ | owns
      · exact got
      · simp [survives.started call (List.mem_of_getElem? found) start] at owns
    simp only [step, found, Option.bind_some, entryStep, start, Option.some_or,
      Option.some.injEq] at stepped
    subst stepped
    obtain rfl := Numbered.set_inj found calls
    exact ⟨got, by simp⟩
  · obtain ⟨same, begun⟩ := (run_moves found stepped).keeps found start calls
    exact ⟨same ▸ given.resolve_left fun both => start both.1, begun⟩

theorem survives_alive {kmalloc : Option Addr} (survives : Survives state)
    (possible : Possible state (.run self kmalloc)) (found : state.calls[self]? = some call)
    (alive : call.revived = call)
    (given : call.pc = .kmalloc ∧ kmalloc.isSome = true ∨ call.params.isSome = true)
    (stepped : step routines state (.run self kmalloc) = some next) : Survives next := by
  have owns := alive_moved survives found given stepped
  have followed := run_revived found alive (fun moved calls => (owns moved calls).1) stepped
  have there := State.revived_get found
  rw [alive] at there
  have assumed : Assumed state.revived (.run self kmalloc) := by
    intro allocates
    rw [there] at allocates
    refine (possible (by rw [found]; exact allocates)).resolve_left ?_
    rintro rfl
    cases pc : call.pc with
    | kmalloc =>
        have missing := survives.started call (List.mem_of_getElem? found) pc
        simp [missing] at given
    | link new => simp [link_null survives.paired there pc] at followed
    | _ => simp [pc] at allocates
  obtain ⟨moved, calls, -⟩ := run_moves found stepped
  obtain ⟨kept, begun⟩ := owns moved calls
  refine survives_goto survives (paired_step assumed survives.paired followed) calls ?_ ?_
  · intro missing
    simp [missing] at kept
  · exact fun start => absurd start begun

theorem survives_run {kmalloc : Option Addr} (survives : Survives state)
    (possible : Possible state (.run self kmalloc))
    (stepped : step routines state (.run self kmalloc) = some next) : Survives next := by
  obtain ⟨call, found, moved⟩ := Option.bind_eq_some_iff.mp stepped
  by_cases missing : call.params = none
  · by_cases given : call.pc = .kmalloc ∧ kmalloc.isSome = true
    · refine survives_alive survives possible found ?_ (.inl given) stepped
      rw [call.revived_of_none missing, ← given.1]
    · have failed (pc : call.pc = .kmalloc) : kmalloc = none := by
        rw [← Option.not_isSome_iff_eq_none]
        exact fun got => given ⟨pc, got⟩
      obtain ⟨same, moved, calls, without, here⟩ := dead_step survives found missing failed stepped
      exact survives_goto survives (same ▸ survives.paired) calls (fun _ => .inr here) fun _ => without
  · have owns := Option.isSome_iff_ne_none.mpr missing
    exact survives_alive survives possible found (call.revived_of_params owns) (.inr owns) stepped

theorem survives_step {action : Action} (possible : Possible state action)
    (survives : Survives state) (stepped : step routines state action = some next) :
    Survives next := by
  cases action with
  | call ri regs memory =>
      obtain rfl := Option.some.inj stepped
      obtain ⟨nonzero, registers, distinct⟩ := possible
      have assumed : Assumed state.revived (.call ri regs memory) := by
        refine ⟨nonzero, registers, fun other member flying => ?_⟩
        obtain ⟨call, among, rfl⟩ := List.mem_map.mp member
        rw [call.revived_ri]
        refine distinct call among ?_
        by_cases missing : call.params = none
        · rcases survives.stuck call among missing with pc | pc | pc <;> simp [pc]
        · rwa [call.revived_of_params (Option.isSome_iff_ne_none.mpr missing)] at flying
      refine ⟨?_, fun call member => ?_, fun call member => ?_⟩
      · have paired := paired_call survives.paired assumed
        simpa [State.revived, Call.revived] using paired
      · rcases List.mem_append.mp member with old | new
        · exact survives.stuck call old
        · rw [List.mem_singleton.mp new]
          exact fun _ => .inl rfl
      · rcases List.mem_append.mp member with old | new
        · exact survives.started call old
        · rw [List.mem_singleton.mp new]
          exact fun _ => rfl
  | run self kmalloc => exact survives_run survives possible stepped
  | ret self regs =>
      obtain ⟨call, found, moved⟩ := Option.bind_eq_some_iff.mp stepped
      split at moved
      · rename_i here
        cases moved
        have owns : call.params.isSome = true := by
          rw [Option.isSome_iff_ne_none]
          intro missing
          rcases survives.stuck call (List.mem_of_getElem? found) missing with pc | pc | pc <;>
            simp [here] at pc
        have there := State.revived_get found
        rw [call.revived_of_params owns] at there
        have followed : step routines state.revived (.ret self regs) =
            some (state.revived.goto self { call with pc := .readAx regs }) := by
          rw [step, there, Option.bind_some, if_pos here]
        have assumed : Assumed state.revived (.ret self regs) := possible
        have paired := paired_step assumed survives.paired followed
        refine @survives_goto state _ self { call with pc := .readAx regs } survives ?_ rfl ?_ (by simp)
        · have same := @revived_moved state (state.goto self { call with pc := .readAx regs }) self
            { call with pc := .readAx regs } rfl owns
          rw [← same]
          exact paired
        · exact fun missing => absurd missing (Option.isSome_iff_ne_none.mp owns)
      · simp at moved

theorem survives_initial (entries : Addr → MyEntry) (heap : Addr → MountParams) :
    Survives (State.initial entries heap) := by
  refine ⟨paired_initial entries heap, ?_, ?_⟩ <;> simp [State.initial]

end LearnK.Hook
