import LearnK.Hook.Effect

/-! What a statement does to its own call and to the lock, in any state of the pool. -/

namespace LearnK.Hook

open LearnK.RbTree (Addr RbRoutines)

inductive Locking (self : Nat) (pc other : Pc) (lock : Option Nat) : Option Nat → Prop
  | keep (same : other.critical = pc.critical) : Locking self pc other lock lock
  | acquire (inside : other.critical = true) : Locking self pc other lock (some self)
  | release : Locking self pc other lock none

structure Moved (state : State) (number : Nat) (call : Call) (next : State) (moved : Call) :
    Prop where
  calls : next.calls = state.calls.set number moved
  regs : moved.regs = call.regs
  memory : moved.memory = call.memory
  copied : moved.copied = call.copied ∨
    ∃ regs, call.regs = some regs ∧ copyParams call.memory regs = moved.copied
  locking : Locking number call.pc moved.pc state.lock next.lock
  params : call.pc = .kmalloc ∨ moved.params = call.params ∧ moved.pc ≠ .kmalloc
  returned : ∀ regs, moved.pc = .readAx regs → call.pc = .body

def Moves (state : State) (self : Nat) (call : Call) (next : State) : Prop :=
  ∃ moved, Moved state self call next moved

variable {routines : RbRoutines} {self : Nat} {call : Call} {state next : State}

theorem entryStep_moves {kmalloc : Option Addr}
    (stepped : entryStep routines self kmalloc call state = some next) :
    Moves state self call next := by
  cases pc : call.pc with
  | copy =>
      simp only [entryStep, pc] at stepped
      split at stepped
      · cases stepped
        exact ⟨_, rfl, rfl, rfl, .inl rfl, .keep (by simp [pc]), .inr ⟨rfl, by simp⟩, by simp⟩
      · rename_i regs registers
        split at stepped
        · cases stepped
          exact ⟨_, rfl, rfl, rfl, .inl rfl, .keep (by simp [pc]), .inr ⟨rfl, by simp⟩, by simp⟩
        · split at stepped
          · obtain ⟨record, copied, rfl⟩ := Option.map_eq_some_iff.mp stepped
            exact ⟨_, rfl, rfl, rfl, .inr ⟨regs, registers, copied⟩, .keep (by simp [pc]),
              .inr ⟨rfl, by simp⟩, by simp⟩
          · cases stepped
            exact ⟨_, rfl, rfl, rfl, .inl rfl, .keep (by simp [pc]), .inr ⟨rfl, by simp⟩, by simp⟩
  | link new =>
      simp only [entryStep, pc] at stepped
      obtain ⟨params, -, linked⟩ := Option.bind_eq_some_iff.mp stepped
      obtain ⟨outcome, -, rfl⟩ := Option.map_eq_some_iff.mp linked
      exact ⟨_, rfl, rfl, rfl, .inl rfl, .keep (by simp [pc]), .inr ⟨rfl, by simp⟩, by simp⟩
  | lockInsert =>
      simp only [entryStep, pc] at stepped
      split at stepped <;> cases stepped
      exact ⟨_, rfl, rfl, rfl, .inl rfl, .acquire rfl, .inr ⟨rfl, by simp⟩, by simp⟩
  | printEntry =>
      simp only [entryStep, pc] at stepped
      obtain ⟨params, -, rfl⟩ := Option.map_eq_some_iff.mp stepped
      exact ⟨_, rfl, rfl, rfl, .inl rfl, .keep (by simp [pc]), .inr ⟨rfl, by simp⟩, by simp⟩
  | unlockInsert =>
      simp only [entryStep, pc] at stepped
      cases stepped
      exact ⟨_, rfl, rfl, rfl, .inl rfl, .release, .inr ⟨rfl, by simp⟩, by simp⟩
  | kmalloc =>
      simp only [entryStep, pc] at stepped
      cases stepped
      exact ⟨_, rfl, rfl, rfl, .inl rfl, .keep (by simp [pc]), .inl pc, by simp⟩
  | descend =>
      simp only [entryStep, pc] at stepped
      cases stepped
      exact ⟨_, rfl, rfl, rfl, .inl rfl, .keep (by simp [pc]), .inr ⟨rfl, by simp⟩, by simp⟩
  | body | readAx | lockPop | search | erase | unlockPop | printReturn | kfree | done =>
      simp [entryStep, pc] at stepped

theorem retStep_moves (stepped : retStep routines self call state = some next) :
    Moves state self call next := by
  cases pc : call.pc with
  | readAx regs =>
      simp only [retStep, pc] at stepped
      obtain ⟨regs, -, rfl⟩ := Option.map_eq_some_iff.mp stepped
      exact ⟨_, rfl, rfl, rfl, .inl rfl, .keep (by simp [pc]), .inr ⟨rfl, by simp⟩, by simp⟩
  | lockPop =>
      simp only [retStep, pc] at stepped
      split at stepped <;> cases stepped
      exact ⟨_, rfl, rfl, rfl, .inl rfl, .acquire rfl, .inr ⟨rfl, by simp⟩, by simp⟩
  | printReturn =>
      simp only [retStep, pc] at stepped
      split at stepped
      · cases stepped
        exact ⟨_, rfl, rfl, rfl, .inl rfl, .keep (by simp [pc]), .inr ⟨rfl, by simp⟩, by simp⟩
      · split at stepped <;> cases stepped
        exact ⟨_, rfl, rfl, rfl, .inl rfl, .keep (by simp [pc]), .inr ⟨rfl, by simp⟩, by simp⟩
  | kfree =>
      simp only [retStep, pc] at stepped
      obtain ⟨params, -, rfl⟩ := Option.map_eq_some_iff.mp stepped
      exact ⟨_, rfl, rfl, rfl, .inl rfl, .keep (by simp [pc]), .inr ⟨rfl, by simp⟩, by simp⟩
  | unlockPop =>
      simp only [retStep, pc] at stepped
      cases stepped
      exact ⟨_, rfl, rfl, rfl, .inl rfl, .release, .inr ⟨rfl, by simp⟩, by simp⟩
  | search | erase =>
      simp only [retStep, pc] at stepped
      cases stepped
      exact ⟨_, rfl, rfl, rfl, .inl rfl, .keep (by simp [pc]), .inr ⟨rfl, by simp⟩, by simp⟩
  | kmalloc | copy | lockInsert | descend | link | unlockInsert | printEntry | body | done =>
      simp [retStep, pc] at stepped

theorem run_moves {kmalloc : Option Addr} (found : state.calls[self]? = some call)
    (stepped : step routines state (.run self kmalloc) = some next) : Moves state self call next := by
  rw [step, found, Option.bind_some] at stepped
  rcases Option.or_eq_some_iff.mp stepped with entered | ⟨-, returned⟩
  · exact entryStep_moves entered
  · exact retStep_moves returned

theorem return_moved (here : call.pc = .body) (regs : Option PtRegs) :
    Moved state self call (state.goto self { call with pc := .readAx regs })
      { call with pc := .readAx regs } :=
  ⟨rfl, rfl, rfl, .inl rfl, .keep (by simp [here]), .inr ⟨rfl, by simp⟩, fun _ _ => here⟩

theorem call_cases {action : Action} {moved : Call} (stepped : step routines state action = some next)
    (there : next.calls[self]? = some moved) :
    state.calls[self]? = some moved ∨
      (∃ ri regs memory, moved = ⟨ri, regs, memory, none, none, none, none, 0, .kmalloc⟩) ∨
      ∃ call, state.calls[self]? = some call ∧ Moved state self call next moved ∧
        ((∃ kmalloc, action = .run self kmalloc) ∨
          ∃ regs, action = .ret self regs ∧ moved.pc = .readAx regs) := by
  cases action with
  | call ri regs memory =>
      obtain rfl := Option.some.inj stepped
      exact (Numbered.append_cases there).imp id fun last => .inl ⟨ri, regs, memory, last.2⟩
  | run other kmalloc =>
      obtain ⟨call, found, -⟩ := Option.bind_eq_some_iff.mp stepped
      obtain ⟨after, moves⟩ := run_moves found stepped
      rw [moves.calls] at there
      rcases Numbered.set_cases there with ⟨rfl, rfl⟩ | ⟨-, before⟩
      · exact .inr (.inr ⟨call, found, moves, .inl ⟨kmalloc, rfl⟩⟩)
      · exact .inl before
  | ret other regs =>
      obtain ⟨call, found, changed⟩ := Option.bind_eq_some_iff.mp stepped
      split at changed
      · rename_i here
        cases changed
        rcases Numbered.set_cases there with ⟨rfl, rfl⟩ | ⟨-, before⟩
        · exact .inr (.inr ⟨call, found, return_moved here regs, .inr ⟨regs, rfl, rfl⟩⟩)
        · exact .inl before
      · simp at changed

end LearnK.Hook
