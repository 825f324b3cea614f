import LearnK.Hook.Invariant
import LearnK.RbTree.Map

/-! Every return meets its own entry, in any interleaving of overlapping calls. -/

namespace LearnK.Hook

open SearchTree Function StepMachine
open LearnK.RbTree (Addr RbNode RbRoot RbRoutines addrs)

variable {routines : RbRoutines} {state next : State}

theorem paired_call {ri : UInt64} {regs : Option PtRegs} {memory : Memory} (paired : Paired state)
    (assumed : Assumed state (.call ri regs memory)) :
    Paired { state with
      calls := state.calls ++ [⟨ri, regs, memory, none, none, none, none, 0, .kmalloc⟩] } := by
  obtain ⟨nonzero, registers, distinct⟩ := assumed
  refine ⟨fun index call present => ?_, ⟨?_, ?_, ?_⟩, ⟨paired.pooled.ordered, paired.pooled.live, ?_, ?_⟩⟩
  · rcases Numbered.append_cases present with before | ⟨-, rfl⟩
    · have good := paired.good index call before
      exact ⟨good.located, good.flight, good.owned, good.filled, good.popped, good.seen⟩
    · exact ⟨trivial, fun _ => ⟨nonzero, registers⟩, by simp, by simp, by simp, by simp⟩
  · intro index call present inside
    rcases Numbered.append_cases present with before | ⟨-, rfl⟩
    · exact paired.apart.locked index call before inside
    · simp at inside
  · intro first second call other present present' flying flying' same
    rcases Numbered.append_cases present with before | ⟨rfl, rfl⟩
    · rcases Numbered.append_cases present' with before' | ⟨rfl, rfl⟩
      · exact paired.apart.instances _ _ _ _ before before' flying flying' same
      · exact absurd same (distinct call (List.mem_of_getElem? before) flying)
    · rcases Numbered.append_cases present' with before' | ⟨rfl, rfl⟩
      · exact absurd same.symm (distinct other (List.mem_of_getElem? before') flying')
      · rfl
  · intro first second call other present present' owns owns' same
    rcases Numbered.append_cases present with before | ⟨-, rfl⟩
    · rcases Numbered.append_cases present' with before' | ⟨-, rfl⟩
      · exact paired.apart.blocks _ _ _ _ before before' owns owns' same
      · simp at owns'
    · simp at owns
  · intro entry member
    obtain ⟨index, call, present, stored, content⟩ := paired.pooled.sound entry member
    exact ⟨index, call, Numbered.append_old present, stored, content⟩
  · intro index call present stored
    rcases Numbered.append_cases present with before | ⟨-, rfl⟩
    · exact paired.pooled.complete index call before stored
    · simp at stored

theorem paired_step {action : Action} (assumed : Assumed state action) (paired : Paired state)
    (stepped : step routines state action = some next) : Paired next := by
  cases action with
  | call ri regs memory =>
      obtain rfl := Option.some.inj stepped
      exact paired_call paired assumed
  | run self kmalloc =>
      obtain ⟨call, found, moved⟩ := Option.bind_eq_some_iff.mp stepped
      have fresh (allocates : call.pc.allocates = true) : state.isFresh kmalloc = true :=
        assumed (by rw [found, Option.map_some, allocates])
      rcases Option.or_eq_some_iff.mp moved with entered | ⟨-, returned⟩
      · exact paired_effect paired found (entryStep_effect paired found fresh entered)
      · exact paired_effect paired found (retStep_effect paired found returned)
  | ret self regs =>
      obtain ⟨call, found, moved⟩ := Option.bind_eq_some_iff.mp stepped
      split at moved
      · rename_i here
        obtain rfl := Option.some.inj moved
        have like : call.pc.Like (.readAx regs) := by
          constructor <;> simp [here]
        have effect : Effect routines state self call
            (state.goto self { call with pc := .readAx regs }) :=
          .quiet (.readAx regs) call.ret state.lock like trivial (.keep (by simp [here]))
        exact paired_effect paired found effect
      · simp at moved

theorem paired_initial (entries : Addr → MyEntry) (heap : Addr → MountParams) :
    Paired (State.initial entries heap) := by
  refine ⟨?_, ⟨?_, ?_, ?_⟩, ⟨.nil, ?_, ?_, ?_⟩⟩ <;> simp [State.initial, addrs]

/-- Nothing keeps the call from its next statement: the pointers it follows can be followed and the
lock it takes is free. -/
def Call.Ready (state : State) (call : Call) : Prop :=
  match call.pc with
  | .copy => ∃ regs record, call.regs = some regs ∧ copyParams call.memory regs = some record
  | .lockInsert | .lockPop => state.lock = none
  | .readAx regs => regs.isSome = true
  | .body | .done => False
  | _ => True

def someRegs : PtRegs := ⟨1, 2, 3, 0, 0, 0⟩

def someMemory : Memory := ⟨fun _ => some fun _ => 0, fun _ => some [], some fun _ => 0⟩

def enter (self params entry : Nat) : List Action :=
  [.run self (some params), .run self none, .run self none, .run self none, .run self (some entry),
    .run self none, .run self none]

def leave (self : Nat) : List Action :=
  .ret self (some someRegs) :: List.replicate 7 (.run self none)

end LearnK.Hook
