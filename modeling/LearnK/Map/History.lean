import LearnK.Map.Shadow
import Mathlib.Data.List.FinRange

/-! Walking over all buckets, and every history of additions, removals and clearings. -/

namespace LearnK.Map

open HList StepMachine

variable {hash : Int32 → Fin htSize} {table : Table} {entries : List Entry}

theorem filter_outside {btk : Fin htSize} (empty : inBucket hash btk entries = []) :
    (entries.filter fun entry => hash entry.key != btk) = entries := by
  refine List.filter_eq_self.mpr fun entry member => ?_
  simpa using List.filter_eq_nil_iff.mp empty entry member

theorem clearLoop_empty {btk : Fin htSize} {fuel : Nat} (shadows : Shadows hash table entries)
    (empty : inBucket hash btk entries = []) :
    clearLoop fuel table (table.links.first btk) = .ok table := by
  have chain := shadows.chain btk
  rw [empty] at chain
  have none : table.links.first btk = none := chain
  rw [none]
  cases fuel <;> rfl

theorem clearLoop_shadows {btk : Fin htSize} {fuel : Nat} (shadows : Shadows hash table entries)
    (enough : (inBucket hash btk entries).length ≤ fuel) :
    ∃ next, clearLoop fuel table (table.links.first btk) = .ok next ∧
      Shadows hash next (entries.filter fun entry => hash entry.key != btk) ∧
      next.allocated = table.allocated := by
  induction fuel generalizing table entries with
  | zero =>
      have empty : inBucket hash btk entries = [] := List.length_eq_zero_iff.mp (by omega)
      exact ⟨table, clearLoop_empty shadows empty, by rwa [filter_outside empty], rfl⟩
  | succ fuel ih =>
      have chain := shadows.chain btk
      cases bucket : inBucket hash btk entries with
      | nil => exact ⟨table, clearLoop_empty shadows bucket, by rwa [filter_outside bucket], rfl⟩
      | cons entry rest =>
          obtain ⟨before, after, rfl, outside, own, later⟩ := List.filter_eq_cons_iff.mp bucket
          rw [bucket] at chain enough
          obtain ⟨first, -, following⟩ := chain
          have tmp : table.links.next entry.data = (rest.map Entry.data).head? := following.read_eq
          obtain ⟨middle, removed, remaining, same⟩ := removeElement_shadows shadows
          have shorter : inBucket hash btk (before ++ after) = rest := by
            rw [inBucket, List.filter_append, List.filter_eq_nil_iff.mpr outside, later]
            rfl
          have lead : middle.links.first btk = (rest.map Entry.data).head? := by
            have start := (remaining.chain btk).read_eq
            rwa [shorter] at start
          obtain ⟨next, cleared, shadowed, allocated⟩ := ih remaining (by
            rw [shorter]
            simpa using enough)
          have cut : (before ++ entry :: after).filter (fun entry => hash entry.key != btk) =
              (before ++ after).filter fun entry => hash entry.key != btk := by
            have hashed : hash entry.key = btk := by simpa using own
            simp [List.filter_append, hashed]
          refine ⟨next, ?_, by rwa [cut], allocated.trans same⟩
          change table.links.first btk = some entry.data at first
          rw [first, clearLoop, removed, tmp, ← lead]
          exact cleared

theorem clearBuckets_shadows (shadows : Shadows hash table entries) (buckets : List (Fin htSize)) :
    ∃ next, clearBuckets buckets table = .ok next ∧
      Shadows hash next (entries.filter fun entry => !buckets.contains (hash entry.key)) ∧
      next.allocated = table.allocated := by
  induction buckets generalizing table entries with
  | nil =>
      have all : (entries.filter fun entry => !([] : List (Fin htSize)).contains (hash entry.key)) =
          entries := List.filter_eq_self.mpr (by simp)
      exact ⟨table, rfl, by rwa [all], rfl⟩
  | cons btk rest ih =>
      have enough := shadows.length_inBucket btk
      rw [List.length_map] at enough
      obtain ⟨middle, emptied, remaining, same⟩ := clearLoop_shadows shadows enough
      obtain ⟨next, cleared, shadowed, allocated⟩ := ih remaining
      have both : (entries.filter fun entry => !(btk :: rest).contains (hash entry.key)) =
          (entries.filter fun entry => hash entry.key != btk).filter fun entry =>
            !rest.contains (hash entry.key) := by
        rw [List.filter_filter]
        refine List.filter_congr fun entry _ => ?_
        by_cases first : hash entry.key = btk <;> simp [first]
      refine ⟨next, ?_, by rwa [both], allocated.trans same⟩
      rw [clearBuckets, emptied]
      exact cleared

theorem clear_shadows (shadows : Shadows hash table entries) :
    ∃ next, clear table = .ok next ∧ Shadows hash next [] ∧ next.allocated = table.allocated := by
  obtain ⟨next, cleared, shadowed, allocated⟩ :=
    clearBuckets_shadows shadows (List.finRange htSize)
  have none : (entries.filter fun entry => !(List.finRange htSize).contains (hash entry.key)) = [] :=
    List.filter_eq_nil_iff.mpr (by simp)
  rw [none] at shadowed
  exact ⟨next, cleared, shadowed, allocated⟩

theorem printLoop_chain {slot : Slot (Fin htSize) Nat} {lines : List Entry} {fuel : Nat}
    (chain : Chain table.links slot (lines.map Entry.data))
    (live : ∀ entry ∈ lines, entry.data ∈ table.live)
    (fields : ∀ entry ∈ lines, table.key entry.data = entry.key ∧
      table.name entry.data = entry.name)
    (enough : lines.length ≤ fuel) : printLoop table fuel (table.links.read slot) = .ok lines := by
  induction lines generalizing slot fuel with
  | nil =>
      rw [chain.read_eq]
      cases fuel <;> rfl
  | cons entry rest ih =>
      obtain ⟨here, -, later⟩ := chain
      obtain ⟨key, name⟩ := fields entry (by simp)
      cases fuel with
      | zero => simp at enough
      | succ fuel =>
          have continued := ih later (fun other member => live other (by simp [member]))
            (fun other member => fields other (by simp [member])) (by simpa using enough)
          change printLoop table fuel (table.links.next entry.data) = .ok rest at continued
          rw [here, printLoop, if_pos (live entry (by simp)), continued, key, name]
          rfl

theorem printBuckets_shadows (shadows : Shadows hash table entries) (buckets : List (Fin htSize)) :
    printBuckets table buckets = .ok (buckets.flatMap fun btk => inBucket hash btk entries) := by
  induction buckets with
  | nil => rfl
  | cons btk rest ih =>
      have enough := shadows.length_inBucket btk
      rw [List.length_map] at enough
      have own (entry : Entry) (member : entry ∈ inBucket hash btk entries) : entry ∈ entries :=
        (mem_inBucket.mp member).1
      have lines := printLoop_chain (shadows.chain btk)
        (fun entry member => shadows.mem_live (own entry member))
        (fun entry member => ⟨shadows.key entry (own entry member),
          shadows.name entry (own entry member)⟩) enough
      change printLoop table table.live.length (table.links.first btk) = _ at lines
      rw [printBuckets, lines, ih]
      rfl

theorem flatMap_inBucket_perm {buckets : List (Fin htSize)} (nodup : buckets.Nodup) :
    (buckets.flatMap fun btk => inBucket hash btk entries).Perm
      (entries.filter fun entry => buckets.contains (hash entry.key)) := by
  induction buckets with
  | nil => simp
  | cons btk rest ih =>
      obtain ⟨apart, nodup⟩ := List.nodup_cons.mp nodup
      have split := List.filter_append_perm (fun entry : Entry => hash entry.key == btk)
        (entries.filter fun entry => (btk :: rest).contains (hash entry.key))
      have own : (entries.filter fun entry => (btk :: rest).contains (hash entry.key)).filter
          (fun entry => hash entry.key == btk) = inBucket hash btk entries := by
        rw [List.filter_filter]
        refine List.filter_congr fun entry _ => ?_
        by_cases first : hash entry.key = btk <;> simp [first]
      have others : (entries.filter fun entry => (btk :: rest).contains (hash entry.key)).filter
          (fun entry => !(hash entry.key == btk)) =
            entries.filter fun entry => rest.contains (hash entry.key) := by
        rw [List.filter_filter]
        refine List.filter_congr fun entry _ => ?_
        by_cases first : hash entry.key = btk <;> simp [first, apart]
      rw [own, others] at split
      exact ((ih nodup).append_left _).trans split

theorem printHashTable_shadows (shadows : Shadows hash table entries) :
    ∃ lines, printHashTable table = .ok lines ∧ lines.Perm entries := by
  refine ⟨_, printBuckets_shadows shadows (List.finRange htSize), ?_⟩
  have all : (entries.filter fun entry => (List.finRange htSize).contains (hash entry.key)) =
      entries := List.filter_eq_self.mpr (by simp)
  have shared := @flatMap_inBucket_perm hash entries _ (List.nodup_finRange htSize)
  rwa [all] at shared

theorem latest_split {key : Int32} {entry : Entry} (found : latest key entries = some entry) :
    ∃ before after, entries = before ++ entry :: after ∧ entry.key = key ∧
      (entries.eraseP fun entry => entry.key == key) = before ++ after ∧
      ∀ other ∈ before, other.key ≠ key := by
  obtain ⟨own, before, after, rfl, earlier⟩ := List.find?_eq_some_iff_append.mp found
  have apart (other : Entry) (member : other ∈ before) : other.key ≠ key := by
    simpa using earlier other member
  refine ⟨before, after, rfl, by simpa using own, ?_, apart⟩
  rw [List.eraseP_append_right _ (by simpa using apart)]
  exact congrArg (before ++ ·) (List.eraseP_cons_of_pos own)

theorem remove_shadows (shadows : Shadows hash table entries) (key : Int32) :
    Option.Rel (Shadows hash) (step hash table (.remove key)) (shadowStep entries (.remove key)) := by
  have got := getElement_shadows shadows key
  simp only [step, shadowStep, got]
  cases found : latest key entries with
  | none => exact .none
  | some entry =>
      obtain ⟨before, after, rfl, -, erased, -⟩ := latest_split found
      obtain ⟨next, removed, shadowed, -⟩ := removeElement_shadows shadows
      simp only [Option.map_some, Option.isSome_some, if_true, erased, Except.bind, removed]
      exact .some shadowed

theorem step_shadows (shadows : Shadows hash table entries) (op : Op)
    (fresh : ∀ next, step hash table op = some next → Fresh table op) :
    Option.Rel (Shadows hash) (step hash table op) (shadowStep entries op) := by
  cases op with
  | add key name data => exact .some (addElement_shadows shadows (fresh _ rfl))
  | remove key => exact remove_shadows shadows key
  | clear =>
      obtain ⟨next, cleared, shadowed, -⟩ := clear_shadows shadows
      simp only [step, cleared]
      exact .some shadowed

def Op.key? : Op → Option Int32
  | .add key _ _ | .remove key => some key
  | .clear => none

theorem latest_shadowStep {entries' : List Entry} {op : Op} {key other : Int32}
    (touched : op.key? = some other) (apart : other ≠ key)
    (stepped : shadowStep entries op = some entries') : latest key entries' = latest key entries := by
  cases op with
  | add added name data =>
      obtain rfl := Option.some.inj touched
      obtain rfl := Option.some.inj stepped
      exact List.find?_cons_of_neg (by simpa using apart)
  | remove removed =>
      obtain rfl := Option.some.inj touched
      simp only [shadowStep] at stepped
      split at stepped
      · rename_i present
        obtain rfl := Option.some.inj stepped
        obtain ⟨entry, found⟩ := Option.isSome_iff_exists.mp present
        obtain ⟨before, after, rfl, own, erased, -⟩ := latest_split found
        have skipped : (entry.key == key) = false := by
          rw [own]
          simpa using apart
        rw [erased]
        simp [latest, List.find?_append, skipped]
      · simp at stepped
  | clear => simp [Op.key?] at touched

theorem shadows_empty (hash : Int32 → Fin htSize) : Shadows hash Table.empty [] where
  chain _ := rfl
  key _ member := by simp at member
  name _ member := by simp at member
  live := .nil
  nodup := .nil
  ledger _ := rfl

/-- Every history of the table, against the shadowing map it stands for.  Only the removal of a
key without entries fails: `remove_element` is handed a NULL pointer. -/
theorem hashTable_shadows (hash : Int32 → Fin htSize) (ops : List Op)
    (fresh : EachStep (step hash) Fresh Table.empty ops) :
    (run (step hash) Table.empty ops = none ↔ run shadowStep [] ops = none) ∧
    ∀ table entries, run (step hash) Table.empty ops = some table →
      run shadowStep [] ops = some entries →
      (∀ key, getElement hash key table = .ok ((latest key entries).map Entry.data)) ∧
      (∀ entry ∈ entries, table.key entry.data = entry.key ∧ table.name entry.data = entry.name) ∧
      (∀ key, step hash table (.remove key) = none ↔ getElement hash key table = .ok none) ∧
      (∀ op next key other, op.key? = some other → other ≠ key → Fresh table op →
        step hash table op = some next → getElement hash key next = getElement hash key table) ∧
      (∃ lines, printHashTable table = .ok lines ∧ lines.Perm entries ∧
        (lines.map Entry.data).Perm table.live ∧ table.live.Nodup) ∧
      ∃ cleared, clear table = .ok cleared ∧ (∀ btk, cleared.links.first btk = none) ∧
        cleared.live = [] ∧ cleared.allocated = table.allocated ∧
        ∀ data, cleared.freed.count data = cleared.allocated.count data := by
  have matched (table : Table) (entries : List Entry) (op : Op) (shadows : Shadows hash table entries)
      (allowed : ∀ next, step hash table op = some next → Fresh table op) :
      Option.Rel (Shadows hash) (step hash table op) (shadowStep entries op) :=
    step_shadows shadows op allowed
  have lockstep := run_lockstep matched (shadows_empty hash) fresh
  refine ⟨rel_none_iff lockstep, fun table entries ran shadowed => ?_⟩
  rw [ran, shadowed] at lockstep
  have shadows : Shadows hash table entries := rel_some lockstep
  have got := getElement_shadows shadows
  refine ⟨got, fun entry member => ⟨shadows.key entry member, shadows.name entry member⟩, ?_, ?_,
    ?_, ?_⟩
  · intro key
    rw [rel_none_iff (remove_shadows shadows key), got key]
    cases found : latest key entries <;> simp [shadowStep, found]
  · intro op next key other touched apart allowed stepped
    have after := step_shadows shadows op fun _ _ => allowed
    rw [stepped] at after
    cases shadowStepped : shadowStep entries op with
    | none => exact absurd ((rel_none_iff after).mpr shadowStepped) (by simp)
    | some entries' =>
        rw [shadowStepped] at after
        rw [got key, getElement_shadows (rel_some after) key,
          latest_shadowStep touched apart shadowStepped]
  · obtain ⟨lines, printed, all⟩ := printHashTable_shadows shadows
    exact ⟨lines, printed, all, (all.map _).trans shadows.live.symm,
      shadows.live.nodup_iff.mpr shadows.nodup⟩
  · obtain ⟨next, cleared, emptied, allocated⟩ := clear_shadows shadows
    have live : next.live = [] := List.perm_nil.mp emptied.live
    refine ⟨next, cleared, fun btk => emptied.chain btk, live, allocated, fun data => ?_⟩
    have balance := emptied.ledger data
    rwa [live, List.count_nil, Nat.add_zero] at balance

def oneBucket (_ : Int32) : Fin htSize := ⟨0, by decide⟩

def collidingOps : List Op := [.add 1 10 100, .add 2 20 200, .add 1 11 300, .remove 1, .remove 2]

theorem hashTable_shadows_collidingOps :
    ∃ table, run (step oneBucket) Table.empty collidingOps = some table ∧
      ∀ key, getElement oneBucket key table =
        .ok ((latest key [⟨100, 1, 10⟩]).map Entry.data) :=
  ⟨_, rfl, ((hashTable_shadows oneBucket collidingOps (by decide)).2 _ _ rfl (by decide)).1⟩

theorem removeElement_faults :
    getElement oneBucket 1 Table.empty = .ok none ∧
      removeElement none Table.empty = .error .nullPointer ∧
      run (step oneBucket) Table.empty [.remove 1] = none :=
  ⟨rfl, rfl, rfl⟩

end LearnK.Map
