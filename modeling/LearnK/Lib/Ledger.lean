import Mathlib.Data.Finset.Basic
import Mathlib.Data.Finset.Lattice.Lemmas
import Mathlib.Data.Finset.SDiff
import LearnK.Lib.StepMachine

/-! Blocks given out and taken back by an allocator: which of them are live after a list of such
events, and when each allocation is answered by exactly one free. -/

namespace Ledger

open StepMachine Function

inductive Event (α : Type*)
  | alloc (block : α)
  | free (block : α)
  deriving DecidableEq, Repr

variable {α : Type*} [DecidableEq α]

/-- The allocator gives out only what is not live, and only what is live may be freed. -/
def step (live : α → Bool) : Event α → Option (α → Bool)
  | .alloc block => if live block then none else some (update live block true)
  | .free block => if live block then some (update live block false) else none

def settle (live : Finset α) : List (Event α) → Finset α
  | [] => live
  | .alloc block :: rest => settle (insert block live) rest
  | .free block :: rest => settle (live.erase block) rest

def frees (block : α) : List (Event α) → Nat
  | [] => 0
  | .alloc other :: rest => if other = block then 0 else frees block rest
  | .free other :: rest => (if other = block then 1 else 0) + frees block rest

def FreedOnce : List (Event α) → Prop
  | [] => True
  | .alloc block :: rest => frees block rest = 1 ∧ FreedOnce rest
  | .free _ :: rest => FreedOnce rest

def decideFreedOnce : (events : List (Event α)) → Decidable (FreedOnce events)
  | [] => isTrue trivial
  | .alloc block :: rest =>
      have := decideFreedOnce rest
      inferInstanceAs (Decidable (frees block rest = 1 ∧ FreedOnce rest))
  | .free _ :: rest => decideFreedOnce rest

instance (events : List (Event α)) : Decidable (FreedOnce events) := decideFreedOnce events

section Replay

variable {block : α} {live next final : α → Bool} {events : List (Event α)}

theorem step_alloc_some (stepped : step live (.alloc block) = some next) :
    live block = false ∧ next = update live block true := by
  simp only [step] at stepped
  split at stepped
  · simp at stepped
  · rename_i dead
    exact ⟨by simpa using dead, (Option.some.inj stepped).symm⟩

theorem step_free_some (stepped : step live (.free block) = some next) :
    live block = true ∧ next = update live block false := by
  simp only [step] at stepped
  split at stepped
  · rename_i held
    exact ⟨held, (Option.some.inj stepped).symm⟩
  · simp at stepped

theorem step_alloc (dead : live block = false) :
    step live (.alloc block) = some (update live block true) := by
  simp [step, dead]

theorem step_free (held : live block = true) :
    step live (.free block) = some (update live block false) := by
  simp [step, held]

theorem frees_alloc_other {other : α} (differs : other ≠ block) :
    frees block (.alloc other :: events) = frees block events := if_neg differs

theorem frees_free_other {other : α} (differs : other ≠ block) :
    frees block (.free other :: events) = frees block events := by
  rw [frees, if_neg differs, Nat.zero_add]

theorem frees_of_dead (ran : run step live events = some final) (dead : live block = false) :
    frees block events = 0 := by
  induction events generalizing live with
  | nil => rfl
  | cons event rest ih =>
      obtain ⟨next, stepped, remaining⟩ := run_cons_some ran
      cases event with
      | alloc other =>
          obtain ⟨-, rfl⟩ := step_alloc_some stepped
          by_cases same : other = block
          · rw [frees, if_pos same]
          · rw [frees_alloc_other same]
            exact ih remaining (by rwa [update_of_ne (Ne.symm same)])
      | free other =>
          obtain ⟨held, rfl⟩ := step_free_some stepped
          have differs : other ≠ block := by
            rintro rfl
            simp [dead] at held
          rw [frees_free_other differs]
          exact ih remaining (by rwa [update_of_ne (Ne.symm differs)])

theorem frees_of_live (ran : run step live events = some final) (held : live block = true) :
    frees block events = 1 ∨ final block = true ∧ .alloc block ∉ events := by
  induction events generalizing live with
  | nil =>
      obtain rfl : live = final := Option.some.inj ran
      exact .inr ⟨held, by simp⟩
  | cons event rest ih =>
      obtain ⟨next, stepped, remaining⟩ := run_cons_some ran
      cases event with
      | alloc other =>
          obtain ⟨dead, rfl⟩ := step_alloc_some stepped
          have differs : other ≠ block := by
            rintro rfl
            simp [held] at dead
          rw [frees_alloc_other differs]
          refine (ih remaining (by rwa [update_of_ne (Ne.symm differs)])).imp id ?_
          exact fun kept => ⟨kept.1, by simp [Ne.symm differs, kept.2]⟩
      | free other =>
          obtain ⟨-, rfl⟩ := step_free_some stepped
          by_cases same : other = block
          · refine .inl ?_
            rw [frees, if_pos same, frees_of_dead remaining (by simp [same])]
          · rw [frees_free_other same]
            refine (ih remaining (by rwa [update_of_ne (Ne.symm same)])).imp id ?_
            exact fun kept => ⟨kept.1, by simp [kept.2]⟩

theorem dead_of_no_alloc (ran : run step live events = some final) (dead : live block = false)
    (never : .alloc block ∉ events) : final block = false := by
  induction events generalizing live with
  | nil =>
      obtain rfl : live = final := Option.some.inj ran
      exact dead
  | cons event rest ih =>
      obtain ⟨next, stepped, remaining⟩ := run_cons_some ran
      rw [List.mem_cons, not_or] at never
      refine ih remaining ?_ never.2
      cases event with
      | alloc other =>
          obtain ⟨-, rfl⟩ := step_alloc_some stepped
          have differs : block ≠ other := fun same => never.1 (by rw [same])
          rwa [update_of_ne differs]
      | free other =>
          obtain ⟨-, rfl⟩ := step_free_some stepped
          by_cases same : block = other
          · rw [same, update_self]
          · rwa [update_of_ne same]

theorem alloc_mem_of_new (ran : run step live events = some final) (dead : live block = false)
    (held : final block = true) : .alloc block ∈ events := by
  by_contra never
  simp [dead_of_no_alloc ran dead never] at held

theorem dead_of_freed (ran : run step live events = some final) (once : frees block events = 1)
    (last : .alloc block ∉ events) : final block = false := by
  induction events generalizing live with
  | nil => simp [frees] at once
  | cons event rest ih =>
      obtain ⟨next, stepped, remaining⟩ := run_cons_some ran
      rw [List.mem_cons, not_or] at last
      cases event with
      | alloc other =>
          have differs : other ≠ block := fun same => last.1 (by rw [same])
          rw [frees_alloc_other differs] at once
          exact ih remaining once last.2
      | free other =>
          by_cases same : other = block
          · obtain ⟨-, rfl⟩ := step_free_some stepped
            exact dead_of_no_alloc remaining (by rw [same, update_self]) last.2
          · rw [frees_free_other same] at once
            exact ih remaining once last.2

/-- Every allocation is answered by exactly one free when no block given out is live at the end. -/
theorem freedOnce_iff (ran : run step live events = some final) :
    FreedOnce events ↔ ∀ block, .alloc block ∈ events → final block = false := by
  induction events generalizing live with
  | nil => simp [FreedOnce]
  | cons event rest ih =>
      obtain ⟨next, stepped, remaining⟩ := run_cons_some ran
      cases event with
      | alloc new =>
          obtain ⟨-, rfl⟩ := step_alloc_some stepped
          rw [FreedOnce, ih remaining]
          constructor
          · rintro ⟨once, later⟩ block member
            by_cases again : .alloc block ∈ rest
            · exact later block again
            · have same : block = new := by simpa [again] using member
              rw [same] at again ⊢
              exact dead_of_freed remaining once again
          · intro dead
            refine ⟨?_, fun block member => dead block (List.mem_cons_of_mem _ member)⟩
            refine (frees_of_live remaining (update_self ..)).resolve_right fun kept => ?_
            have gone := dead new (List.mem_cons_self ..)
            simp [kept.1] at gone
      | free gone =>
          rw [FreedOnce, ih remaining]
          simp

end Replay

structure Owned (base live : α → Bool) (owned : List α) : Prop where
  distinct : owned.Nodup
  live_iff : ∀ block, live block = true ↔ base block = true ∨ block ∈ owned
  new : ∀ block ∈ owned, base block = false

section Owned

variable {base live : α → Bool} {owned owned' : List α} {block : α} {events : List (Event α)}

omit [DecidableEq α] in
theorem Owned.start (base : α → Bool) : Owned base base [] :=
  ⟨List.nodup_nil, by simp, by simp⟩

omit [DecidableEq α] in
theorem Owned.base_dead (account : Owned base live owned) (dead : live block = false) :
    base block = false ∧ block ∉ owned := by
  have none : ¬(base block = true ∨ block ∈ owned) := by
    rw [← account.live_iff, dead]
    exact Bool.false_ne_true
  rw [not_or, Bool.not_eq_true] at none
  exact none

omit [DecidableEq α] in
theorem Owned.perm (account : Owned base live owned) (perm : owned.Perm owned') :
    Owned base live owned' :=
  ⟨perm.nodup_iff.mp account.distinct, fun block => by rw [account.live_iff, perm.mem_iff],
    fun block member => account.new block (perm.mem_iff.mpr member)⟩

theorem Owned.alloc (account : Owned base live owned) (dead : live block = false) :
    Owned base (update live block true) (block :: owned) := by
  obtain ⟨outside, apart⟩ := account.base_dead dead
  refine ⟨List.nodup_cons.mpr ⟨apart, account.distinct⟩, fun other => ?_, fun other member => ?_⟩
  · by_cases same : other = block
    · simp [same]
    · rw [update_of_ne same, account.live_iff, List.mem_cons, or_iff_right same]
  · rcases List.mem_cons.mp member with rfl | old
    · exact outside
    · exact account.new other old

theorem Owned.free (account : Owned base live (block :: owned)) :
    Owned base (update live block false) owned := by
  obtain ⟨apart, distinct⟩ := List.nodup_cons.mp account.distinct
  refine ⟨distinct, fun other => ?_, fun other member => account.new other (by simp [member])⟩
  by_cases same : other = block
  · have outside := account.new block (by simp)
    simp [same, outside, apart]
  · rw [update_of_ne same, account.live_iff, List.mem_cons, or_iff_right same]

theorem Owned.free_all {blocks : List α} (account : Owned base live (blocks ++ owned)) :
    ∃ after, run step live (blocks.map .free) = some after ∧ Owned base after owned := by
  induction blocks generalizing live with
  | nil => exact ⟨live, rfl, account⟩
  | cons first rest ih =>
      have held : live first = true := (account.live_iff first).mpr (.inr (by simp))
      obtain ⟨after, ran, left⟩ := @ih (update live first false) account.free
      refine ⟨after, ?_, left⟩
      rw [List.map_cons, run_cons, step_free held]
      exact ran

theorem Owned.freedOnce_iff (account : Owned base live owned)
    (ran : run step base events = some live)
    (fresh : ∀ block, .alloc block ∈ events → base block = false) :
    FreedOnce events ↔ owned = [] := by
  rw [Ledger.freedOnce_iff ran]
  constructor
  · intro dead
    refine List.eq_nil_iff_forall_not_mem.mpr fun block member => ?_
    have held := (account.live_iff block).mpr (.inr member)
    have gone := dead block (alloc_mem_of_new ran (account.new block member) held)
    simp [held] at gone
  · rintro rfl block member
    have outside := fresh block member
    by_contra alive
    have held := (account.live_iff block).mp (by simpa using alive)
    simp [outside] at held

/-- The events can be replayed from `base`, and what is live after them beyond it is `owned`. -/
def Leaves (base : α → Bool) (events : List (Event α)) (owned : List α) : Prop :=
  ∃ live, run step base events = some live ∧ Owned base live owned

theorem Leaves.start (base : α → Bool) : Leaves base [] [] := ⟨base, rfl, .start base⟩

theorem Leaves.distinct (leaves : Leaves base events owned) : owned.Nodup := by
  obtain ⟨live, -, account⟩ := leaves
  exact account.distinct

theorem Leaves.perm (leaves : Leaves base events owned) (perm : owned.Perm owned') :
    Leaves base events owned' := by
  obtain ⟨live, ran, account⟩ := leaves
  exact ⟨live, ran, account.perm perm⟩

theorem Leaves.alloc (leaves : Leaves base events owned) (outside : base block = false)
    (fresh : block ∉ owned) : Leaves base (events ++ [.alloc block]) (block :: owned) := by
  obtain ⟨live, ran, account⟩ := leaves
  have dead : live block = false := by
    by_contra alive
    have held := (account.live_iff block).mp (by simpa using alive)
    simp [outside, fresh] at held
  refine ⟨_, ?_, account.alloc dead⟩
  rw [run_append, ran]
  simp [run_cons, step_alloc dead]

theorem Leaves.free (leaves : Leaves base events (block :: owned)) :
    Leaves base (events ++ [.free block]) owned := by
  obtain ⟨live, ran, account⟩ := leaves
  have held : live block = true := (account.live_iff block).mpr (.inr (by simp))
  refine ⟨_, ?_, account.free⟩
  rw [run_append, ran]
  simp [run_cons, step_free held]

theorem Leaves.free_all {blocks : List α} (leaves : Leaves base events (blocks ++ owned)) :
    Leaves base (events ++ blocks.map .free) owned := by
  obtain ⟨live, ran, account⟩ := leaves
  obtain ⟨after, freed, left⟩ := account.free_all
  refine ⟨after, ?_, left⟩
  rw [run_append, ran]
  exact freed

end Owned

section Settle

variable {block : α} {live : Finset α} {events : List (Event α)}

theorem mem_settle_iff {base final : α → Bool} (same : ∀ block, base block = true ↔ block ∈ live)
    (ran : run step base events = some final) (block : α) :
    final block = true ↔ block ∈ settle live events := by
  induction events generalizing base live with
  | nil =>
      obtain rfl : base = final := Option.some.inj ran
      exact same block
  | cons event rest ih =>
      obtain ⟨next, stepped, remaining⟩ := run_cons_some ran
      cases event with
      | alloc new =>
          obtain ⟨-, rfl⟩ := step_alloc_some stepped
          refine @ih _ _ (fun other => ?_) remaining
          by_cases here : other = new <;> simp [here, same]
      | free gone =>
          obtain ⟨-, rfl⟩ := step_free_some stepped
          refine @ih _ _ (fun other => ?_) remaining
          by_cases here : other = gone <;> simp [here, same]

theorem settle_append (first second : List (Event α)) :
    settle live (first ++ second) = settle (settle live first) second := by
  induction first generalizing live with
  | nil => rfl
  | cons event rest ih =>
      cases event with
      | alloc block => exact ih
      | free block => exact ih

theorem settle_allocs (blocks : List α) :
    settle live (blocks.map .alloc) = live ∪ blocks.toFinset := by
  induction blocks generalizing live with
  | nil => simp [settle]
  | cons block rest ih =>
      rw [List.map_cons, settle, ih, List.toFinset_cons, Finset.insert_union_comm]

theorem settle_frees (blocks : List α) :
    settle live (blocks.map .free) = live \ blocks.toFinset := by
  induction blocks generalizing live with
  | nil => simp [settle]
  | cons block rest ih =>
      rw [List.map_cons, settle, ih, List.toFinset_cons, Finset.sdiff_insert, Finset.erase_sdiff_comm]

theorem frees_allocs {blocks : List α} (other : block ∉ blocks) (events : List (Event α)) :
    frees block (blocks.map .alloc ++ events) = frees block events := by
  induction blocks with
  | nil => rfl
  | cons first rest ih =>
      rw [List.mem_cons, not_or] at other
      rw [List.map_cons, List.cons_append, frees_alloc_other (Ne.symm other.1), ih other.2]

theorem frees_frees (block : α) (blocks : List α) :
    frees block (blocks.map .free) = blocks.count block := by
  induction blocks with
  | nil => rfl
  | cons first rest ih =>
      rw [List.map_cons, frees, ih, List.count_cons, Nat.add_comm]
      simp

theorem freedOnce_frees (blocks : List α) : FreedOnce (blocks.map .free) := by
  induction blocks with
  | nil => trivial
  | cons first rest ih => exact ih

theorem freedOnce_allocs {blocks : List α} (distinct : blocks.Nodup)
    (once : ∀ block ∈ blocks, frees block events = 1) (later : FreedOnce events) :
    FreedOnce (blocks.map .alloc ++ events) := by
  induction blocks with
  | nil => exact later
  | cons first rest ih =>
      obtain ⟨alone, distinct⟩ := List.nodup_cons.mp distinct
      have here : frees first (rest.map .alloc ++ events) = 1 := by
        rw [frees_allocs alone]
        exact once first (List.mem_cons_self ..)
      exact ⟨here, ih distinct fun block member => once block (List.mem_cons_of_mem _ member)⟩

theorem freedOnce_returned {blocks : List α} (distinct : blocks.Nodup) :
    FreedOnce (blocks.map .alloc ++ blocks.map .free) := by
  refine freedOnce_allocs distinct (fun block member => ?_) (freedOnce_frees blocks)
  rw [frees_frees]
  exact List.count_eq_one_of_mem distinct member

theorem settle_returned {blocks : List α} (fresh : ∀ block ∈ blocks, block ∉ live) :
    settle live (blocks.map .alloc ++ blocks.map .free) = live := by
  have apart : Disjoint live blocks.toFinset := by
    rw [Finset.disjoint_right]
    exact fun block member => fresh block (List.mem_toFinset.mp member)
  rw [settle_append, settle_allocs, settle_frees, Finset.union_sdiff_cancel_right apart]

end Settle

end Ledger
