import LearnK.Rhashtable.Core

/-! Which entries the module gives back: all of them when it stops early, all but the one it removes
when every insertion succeeds. -/

namespace LearnK.Rhashtable

open StepMachine Function Ledger

variable {Table : Type}

def Answers.Distinct (answers : Answers) : Prop :=
  ∀ i j entry, answers.kzalloc i = some entry → answers.kzalloc j = some entry → i = j

structure Holds (routines : RhashRoutines Table) (answers : Answers) (done : Nat) (live : Addr → Bool)
    (state : State Table) : Prop where
  present : ∀ i, i < done → ∃ entry ∈ routines.nodes state.rht, answers.kzalloc i = some entry ∧
    state.entries entry = ⟨UInt32.ofNat i, valueOf i⟩
  sound : ∀ entry ∈ routines.nodes state.rht, ∃ i, i < done ∧ answers.kzalloc i = some entry ∧
    state.entries entry = ⟨UInt32.ofNat i, valueOf i⟩
  replays : run Ledger.step (fun _ => false) state.events = some live
  owned : Owned (fun _ => false) live (routines.nodes state.rht)

section

variable {routines : RhashRoutines Table} {answers : Answers} {done : Nat} {live : Addr → Bool}
  {state : State Table}

theorem replays_snoc {events : List (Event Addr)} {event : Event Addr} {after : Addr → Bool}
    (replays : run Ledger.step (fun _ => false) events = some live)
    (stepped : Ledger.step live event = some after) :
    run Ledger.step (fun _ => false) (events ++ [event]) = some after := by
  rw [run_append, replays]
  simp [run_cons, stepped]

theorem Holds.fresh (holds : Holds routines answers done live state) (distinct : answers.Distinct)
    {entry : Addr} (given : answers.kzalloc done = some entry) :
    entry ∉ routines.nodes state.rht ∧ live entry = false := by
  have outside : entry ∉ routines.nodes state.rht := by
    intro member
    obtain ⟨i, before, also, -⟩ := holds.sound entry member
    have same := distinct i done entry also given
    omega
  refine ⟨outside, ?_⟩
  by_contra held
  have member := (holds.owned.live_iff entry).mp (by simpa using held)
  exact outside (by simpa using member)

theorem Holds.insert (holds : Holds routines answers done live state) (distinct : answers.Distinct)
    {entry : Addr} (given : answers.kzalloc done = some entry) :
    Holds routines answers (done + 1) (update live entry true) { state with
      entries := update state.entries entry ⟨UInt32.ofNat done, valueOf done⟩
      events := state.events ++ [.alloc entry]
      rht := routines.insertFast
        (fun node => (update state.entries entry ⟨UInt32.ofNat done, valueOf done⟩ node).key)
        entry state.rht } := by
  obtain ⟨outside, dead⟩ := holds.fresh distinct given
  have nodes := routines.insertFast_nodes
    (fun node => (update state.entries entry ⟨UInt32.ofNat done, valueOf done⟩ node).key) entry state.rht
    outside
  have kept {other : Addr} (member : other ∈ routines.nodes state.rht) :
      update state.entries entry ⟨UInt32.ofNat done, valueOf done⟩ other = state.entries other :=
    update_of_ne (ne_of_mem_of_not_mem member outside) _ _
  refine ⟨fun i before => ?_, fun other member => ?_, replays_snoc holds.replays (step_alloc dead),
    (holds.owned.alloc dead).perm nodes.symm⟩
  · rcases Nat.lt_succ_iff_lt_or_eq.mp before with earlier | rfl
    · obtain ⟨other, member, its, held⟩ := holds.present i earlier
      exact ⟨other, nodes.mem_iff.mpr (List.mem_cons_of_mem _ member), its, (kept member).trans held⟩
    · exact ⟨entry, nodes.mem_iff.mpr (List.mem_cons_self ..), given, update_self ..⟩
  · rcases List.mem_cons.mp (nodes.mem_iff.mp member) with rfl | old
    · exact ⟨done, Nat.lt_succ_self _, given, update_self ..⟩
    · obtain ⟨i, before, its, held⟩ := holds.sound other old
      exact ⟨i, Nat.lt_succ_of_lt before, its, (kept old).trans held⟩

inductive Inserted (routines : RhashRoutines Table) (answers : Answers) (last : Nat)
    (log : List Message) :
    State Table × Bool → Prop
  | all {live : Addr → Bool} {state : State Table} (holds : Holds routines answers last live state)
      (silent : state.log = log)
      (granted : ∀ i, i < last → answers.kzalloc i ≠ none ∧ 0 ≤ answers.insert i) :
      Inserted routines answers last log (state, true)
  | stopped {live : Addr → Bool} {state : State Table} (i : Nat) (before : i < last)
      (refused : answers.kzalloc i = none ∧ state.log = log ++ [.kzallocNull] ∨
        answers.kzalloc i ≠ none ∧ answers.insert i < 0 ∧
          state.log = log ++ [.insertReturns (answers.insert i)])
      (replays : run Ledger.step (fun _ => false) state.events = some live)
      (owned : Owned (fun _ => false) live (routines.nodes state.rht)) :
      Inserted routines answers last log (state, false)

theorem insertLoop_ends (distinct : answers.Distinct) {remaining last : Nat}
    (rounds : done + remaining = last) (holds : Holds routines answers done live state)
    (granted : ∀ i, i < done → answers.kzalloc i ≠ none ∧ 0 ≤ answers.insert i) :
    Inserted routines answers last state.log (insertLoop routines answers remaining done state) := by
  induction remaining generalizing done live state with
  | zero =>
      obtain rfl : done = last := by omega
      exact .all holds rfl granted
  | succ remaining ih =>
      rw [insertLoop]
      cases given : answers.kzalloc done with
      | none => exact .stopped done (by omega) (.inl ⟨given, rfl⟩) holds.replays holds.owned
      | some entry =>
          obtain ⟨-, dead⟩ := holds.fresh distinct given
          simp only
          split_ifs with refused
          · have allocated := replays_snoc holds.replays (step_alloc dead)
            refine .stopped done (by omega) (.inr ⟨by simp [given], refused, rfl⟩)
              (replays_snoc allocated (step_free (update_self ..))) ?_
            exact (holds.owned.alloc dead).free
          · refine ih (by omega) (holds.insert distinct given) fun i before => ?_
            rcases Nat.lt_succ_iff_lt_or_eq.mp before with earlier | rfl
            · exact granted i earlier
            · exact ⟨by simp [given], by omega⟩

theorem Holds.lookup (holds : Holds routines answers done live state)
    (narrow : done ≤ 4294967296) {i : Nat}
    (before : i < done) : ∃ entry, routines.lookup state.keyAt (UInt32.ofNat i) state.rht = some entry ∧
      answers.kzalloc i = some entry ∧ entry ∈ routines.nodes state.rht ∧
      state.entries entry = ⟨UInt32.ofNat i, valueOf i⟩ := by
  cases found : routines.lookup state.keyAt (UInt32.ofNat i) state.rht with
  | none =>
      obtain ⟨entry, member, -, held⟩ := holds.present i before
      have missing := routines.lookup_none _ _ _ found entry member
      simp [State.keyAt, held] at missing
  | some entry =>
      obtain ⟨member, key⟩ := routines.lookup_some _ _ _ _ found
      obtain ⟨j, within, its, held⟩ := holds.sound entry member
      have same : j = i := by
        rw [State.keyAt, held] at key
        have numbers := congrArg UInt32.toNat key
        simp only [UInt32.toNat_ofNat'] at numbers
        omega
      subst same
      exact ⟨entry, rfl, its, member, held⟩

theorem lookupLoop_passes (holds : Holds routines answers done live state) (narrow : done ≤ 4294967296)
    {remaining i : Nat} (rounds : i + remaining ≤ done) :
    lookupLoop routines remaining i state = (state, true) := by
  induction remaining generalizing i with
  | zero => rfl
  | succ remaining ih =>
      obtain ⟨entry, found, -, -, held⟩ := holds.lookup narrow (show i < done by omega)
      rw [lookupLoop, found]
      simp only [held, ne_eq, not_true_eq_false, if_false]
      exact ih (by omega)

theorem freeAndDestroy_owned {kept : List Addr}
    (replays : run Ledger.step (fun _ => false) state.events = some live)
    (owned : Owned (fun _ => false) live (routines.nodes state.rht ++ kept)) :
    ∃ after, run Ledger.step (fun _ => false) (freeAndDestroy routines state).events = some after ∧
      Owned (fun _ => false) after kept := by
  obtain ⟨after, freed, left⟩ := owned.free_all
  refine ⟨after, ?_, left⟩
  rw [freeAndDestroy, run_append, replays]
  exact freed

theorem Holds.removeEntry (holds : Holds routines answers done live state)
    (narrow : done ≤ 4294967296) {i : Nat}
    (before : i < done) : ∃ entry, answers.kzalloc i = some entry ∧
      (removeEntry routines (UInt32.ofNat i) state).events = state.events ∧
      (removeEntry routines (UInt32.ofNat i) state).log =
        state.log ++ [.remove (UInt32.ofNat i) (valueOf i)] ∧
      Owned (fun _ => false) live
        (routines.nodes (removeEntry routines (UInt32.ofNat i) state).rht ++ [entry]) := by
  obtain ⟨entry, found, its, member, held⟩ := holds.lookup narrow before
  have removed := routines.removeFast_nodes entry state.rht holds.owned.distinct member
  rw [Rhashtable.removeEntry, found]
  refine ⟨entry, its, rfl, ?_, holds.owned.perm ?_⟩
  · simp [State.say, held]
  · exact (List.perm_cons_erase member).trans
      ((removed.symm.cons entry).trans (List.perm_append_singleton _ _).symm)

end

/-- A round of the first loop that does not get its entry into the table. -/
def Answers.Refuses (answers : Answers) : Prop :=
  ∃ i, i < entryCount ∧ (answers.kzalloc i = none ∨ answers.insert i < 0)

/-- Once the table exists the load returns 0 whatever happens.  No entry is freed twice and no lookup
fails; every entry is freed exactly when some round of the first loop fails, and otherwise the one
with key 1 is out of the table and never freed. -/
theorem startInit_leaks_removed (routines : RhashRoutines Table) (answers : Answers)
    (distinct : answers.Distinct) (entries : Addr → HashEntry) (created : 0 ≤ answers.init) :
    (startInit routines answers entries).1 = 0 ∧ ∃ live,
      run Ledger.step (fun _ => false) (startInit routines answers entries).2.events = some live ∧
      (FreedOnce (startInit routines answers entries).2.events ↔ answers.Refuses) ∧
      (answers.Refuses → ∃ i, i < entryCount ∧ (startInit routines answers entries).2.log =
        [.initReturns answers.init,
          if answers.kzalloc i = none then .kzallocNull else .insertReturns (answers.insert i)]) ∧
      (¬answers.Refuses → ∃ entry, answers.kzalloc 1 = some entry ∧
        (∀ block, live block = true ↔ block = entry) ∧
        (startInit routines answers entries).2.log = [.initReturns answers.init, .remove 1 1]) := by
  have begun : Holds routines answers 0 (fun _ => false)
      ⟨routines.empty, entries, [], [.initReturns answers.init]⟩ := by
    refine ⟨by simp, by simp [routines.empty_nodes], rfl, ?_⟩
    rw [routines.empty_nodes]
    exact Owned.start _
  have ends := insertLoop_ends distinct (Nat.zero_add entryCount) begun (by simp)
  rw [startInit]
  simp only [if_neg (Int.not_lt.mpr created)]
  cases result : insertLoop routines answers entryCount 0
      ⟨routines.empty, entries, [], [.initReturns answers.init]⟩ with
  | mk state completed =>
  rw [result] at ends
  cases ends with
  | stopped i before refused replays owned =>
      obtain ⟨after, freed, left⟩ := freeAndDestroy_owned replays
        ((List.append_nil (routines.nodes state.rht)).symm ▸ owned)
      have refuses : answers.Refuses := by
        refine ⟨i, before, ?_⟩
        rcases refused with ⟨none, -⟩ | ⟨-, negative, -⟩
        · exact .inl none
        · exact .inr negative
      refine ⟨rfl, after, freed, ?_, fun _ => ⟨i, before, ?_⟩, fun never => absurd refuses never⟩
      · exact iff_of_true ((left.freedOnce_iff freed fun _ _ => rfl).mpr rfl) refuses
      · rcases refused with ⟨none, log⟩ | ⟨given, -, log⟩
        · rw [if_pos none]
          exact log
        · rw [if_neg given]
          exact log
  | all holds silent granted =>
      have never : ¬answers.Refuses := by
        rintro ⟨i, before, none | negative⟩
        · exact (granted i before).1 none
        · exact absurd (granted i before).2 (Int.not_le.mpr negative)
      have passes := lookupLoop_passes holds (by decide) (Nat.le_of_eq (Nat.zero_add entryCount))
      obtain ⟨entry, its, same, log, owned⟩ :=
        holds.removeEntry (by decide) (show 1 < entryCount by decide)
      obtain ⟨after, freed, left⟩ := freeAndDestroy_owned (same ▸ holds.replays) owned
      simp only [passes]
      refine ⟨trivial, after, freed, ?_, fun refuses => absurd refuses never,
        fun _ => ⟨entry, its, ?_, ?_⟩⟩
      · refine iff_of_false (fun once => ?_) never
        have empty := (left.freedOnce_iff freed fun _ _ => rfl).mp once
        simp at empty
      · intro block
        simpa using left.live_iff block
      · rw [silent] at log
        exact log

def listRoutines : RhashRoutines (List Addr) where
  nodes table := table
  empty := []
  insertFast _ entry table := entry :: table
  lookup keyAt key table := table.find? fun entry => keyAt entry == key
  removeFast entry table := table.erase entry
  empty_nodes := rfl
  insertFast_nodes _ _ _ _ := List.Perm.refl _
  lookup_some _ _ _ _ found := ⟨List.mem_of_find?_eq_some found, by simpa using List.find?_some found⟩
  lookup_none _ _ _ missing entry member := by simpa using List.find?_eq_none.mp missing entry member
  removeFast_nodes _ _ _ _ := List.Perm.refl _

def plentiful : Answers := ⟨0, fun i => some (4096 + 32 * i), fun _ => 0⟩

theorem startInit_leaks_removed_plentiful :
    (startInit listRoutines plentiful fun _ => ⟨0, 0⟩).1 = 0 ∧ ∃ live,
      run Ledger.step (fun _ => false) (startInit listRoutines plentiful fun _ => ⟨0, 0⟩).2.events =
        some live ∧ ∀ block, live block = true ↔ block = 4128 := by
  have distinct : plentiful.Distinct := by
    intro i j entry first second
    have same : 4096 + 32 * i = 4096 + 32 * j := Option.some.inj (first.trans second.symm)
    omega
  have grants : ¬plentiful.Refuses := by
    rintro ⟨i, -, none | negative⟩
    · simp [plentiful] at none
    · simp [plentiful] at negative
  obtain ⟨ret, live, replays, -, -, kept⟩ :=
    startInit_leaks_removed listRoutines plentiful distinct (fun _ => ⟨0, 0⟩) (by decide)
  obtain ⟨entry, its, alive, -⟩ := kept grants
  obtain rfl := Option.some.inj its
  exact ⟨ret, live, replays, alive⟩

end LearnK.Rhashtable
