import LearnK.Map.Core
import Mathlib.Data.List.Find
import Mathlib.Data.List.Perm.Basic

/-! The table as a shadowing map: the live additions, the most recent one first.  Each chain holds
those of its bucket in the same order. -/

namespace LearnK.Map

open HList StepMachine

def latest (key : Int32) (entries : List Entry) : Option Entry :=
  entries.find? fun entry => entry.key == key

/-- What the calls mean.  There is nothing to remove under a key without entries. -/
def shadowStep (entries : List Entry) : Op → Option (List Entry)
  | .add key name data => some (⟨data, key, name⟩ :: entries)
  | .remove key =>
      if (latest key entries).isSome then some (entries.eraseP fun entry => entry.key == key)
      else none
  | .clear => some []

def inBucket (hash : Int32 → Fin htSize) (btk : Fin htSize) (entries : List Entry) : List Entry :=
  entries.filter fun entry => hash entry.key == btk

structure Shadows (hash : Int32 → Fin htSize) (table : Table) (entries : List Entry) : Prop where
  chain : ∀ btk, Chain table.links (.first btk) ((inBucket hash btk entries).map Entry.data)
  key : ∀ entry ∈ entries, table.key entry.data = entry.key
  name : ∀ entry ∈ entries, table.name entry.data = entry.name
  live : table.live.Perm (entries.map Entry.data)
  nodup : (entries.map Entry.data).Nodup
  ledger : ∀ data, table.freed.count data + table.live.count data = table.allocated.count data

variable {hash : Int32 → Fin htSize} {table : Table} {entries : List Entry}

theorem Shadows.mem_live (shadows : Shadows hash table entries) {entry : Entry}
    (member : entry ∈ entries) : entry.data ∈ table.live :=
  shadows.live.mem_iff.mpr (List.mem_map_of_mem member)

theorem Shadows.length (shadows : Shadows hash table entries) :
    table.live.length = entries.length := by
  rw [shadows.live.length_eq, List.length_map]

theorem mem_inBucket {btk : Fin htSize} {entry : Entry} :
    entry ∈ inBucket hash btk entries ↔ entry ∈ entries ∧ hash entry.key = btk := by
  simp [inBucket]

theorem Shadows.live_inBucket (shadows : Shadows hash table entries) (btk : Fin htSize) :
    ∀ node ∈ (inBucket hash btk entries).map Entry.data, node ∈ table.live := by
  intro node member
  obtain ⟨entry, inside, rfl⟩ := List.mem_map.mp member
  exact shadows.mem_live (mem_inBucket.mp inside).1

theorem Shadows.length_inBucket (shadows : Shadows hash table entries) (btk : Fin htSize) :
    ((inBucket hash btk entries).map Entry.data).length ≤ table.live.length := by
  rw [shadows.length, List.length_map]
  exact List.length_filter_le _ _

theorem Shadows.disjoint (shadows : Shadows hash table entries) {btk other : Fin htSize}
    (apart : other ≠ btk) :
    ∀ node ∈ (inBucket hash other entries).map Entry.data,
      node ∉ (inBucket hash btk entries).map Entry.data := by
  intro node member member'
  obtain ⟨entry, inside, rfl⟩ := List.mem_map.mp member
  obtain ⟨entry', inside', same⟩ := List.mem_map.mp member'
  obtain ⟨among, own⟩ := mem_inBucket.mp inside
  obtain ⟨among', own'⟩ := mem_inBucket.mp inside'
  obtain rfl := List.inj_on_of_nodup_map shadows.nodup among' among same
  exact apart (own.symm.trans own')

theorem getLoop_chain {key : Int32} {slot : Slot (Fin htSize) Nat} {nodes : List Nat} {fuel : Nat}
    (chain : Chain table.links slot nodes) (live : ∀ node ∈ nodes, node ∈ table.live)
    (enough : nodes.length ≤ fuel) :
    getLoop table key fuel (table.links.read slot) =
      .ok (nodes.find? fun node => table.key node == key) := by
  induction nodes generalizing slot fuel with
  | nil =>
      rw [chain.read_eq]
      cases fuel <;> rfl
  | cons node rest ih =>
      obtain ⟨here, -, later⟩ := chain
      cases fuel with
      | zero => simp at enough
      | succ fuel =>
          have continued := ih later (fun other member => live other (by simp [member]))
            (by simpa using enough)
          rw [here, getLoop, if_pos (live node (by simp))]
          by_cases same : table.key node = key
          · simp [same]
          · rw [if_neg same, List.find?_cons_of_neg (by simpa using same)]
            exact continued

theorem getElement_shadows (shadows : Shadows hash table entries) (key : Int32) :
    getElement hash key table = .ok ((latest key entries).map Entry.data) := by
  refine (getLoop_chain (shadows.chain (hash key)) (shadows.live_inBucket (hash key))
    (shadows.length_inBucket (hash key))).trans ?_
  rw [List.find?_map, inBucket, List.find?_filter, latest]
  congr 2
  refine List.find?_congr fun entry member => ?_
  have own := shadows.key entry member
  by_cases same : entry.key = key <;> simp [own, same]

theorem addElement_shadows (shadows : Shadows hash table entries) {key : Int32} {name data : Nat}
    (fresh : data ∉ table.live) :
    Shadows hash (addElement hash (some data) key name table) (⟨data, key, name⟩ :: entries) := by
  have unknown : data ∉ entries.map Entry.data := fun member =>
    fresh (shadows.live.mem_iff.mpr member)
  have apart (entry : Entry) (member : entry ∈ entries) : entry.data ≠ data := fun same =>
    unknown (same ▸ List.mem_map_of_mem member)
  have outside (btk : Fin htSize) : data ∉ (inBucket hash btk entries).map Entry.data :=
    fun member => fresh (shadows.live_inBucket btk data member)
  refine ⟨fun btk => ?_, ?_, ?_, shadows.live.cons data, List.nodup_cons.mpr ⟨unknown, shadows.nodup⟩,
    fun other => ?_⟩
  · by_cases same : hash key = btk
    · subst btk
      have grown : inBucket hash (hash key) (⟨data, key, name⟩ :: entries) =
          ⟨data, key, name⟩ :: inBucket hash (hash key) entries := by simp [inBucket]
      have nodup : ((inBucket hash (hash key) entries).map Entry.data).Nodup :=
        shadows.nodup.sublist (List.filter_sublist.map _)
      rw [grown]
      exact (shadows.chain (hash key)).addHead (outside (hash key)) nodup
    · have kept : inBucket hash btk (⟨data, key, name⟩ :: entries) = inBucket hash btk entries := by
        simp [inBucket, same]
      rw [kept]
      exact (shadows.chain (hash key)).addHead_other (shadows.chain btk) (Ne.symm same)
        (outside btk) (shadows.disjoint (Ne.symm same))
  · intro entry member
    rcases List.mem_cons.mp member with rfl | member
    · simp [addElement]
    · simp [addElement, apart entry member, shadows.key entry member]
  · intro entry member
    rcases List.mem_cons.mp member with rfl | member
    · simp [addElement]
    · simp [addElement, apart entry member, shadows.name entry member]
  · have balance := shadows.ledger other
    simp only [addElement, List.count_cons, List.count_append, List.count_nil]
    omega

theorem removeElement_shadows {before after : List Entry} {entry : Entry}
    (shadows : Shadows hash table (before ++ entry :: after)) :
    ∃ next, removeElement (some entry.data) table = .ok next ∧
      Shadows hash next (before ++ after) ∧ next.allocated = table.allocated := by
  have member : entry ∈ before ++ entry :: after := by simp
  have live := shadows.mem_live member
  refine ⟨_, if_pos live, ?_, rfl⟩
  have nodup := shadows.nodup
  have shape : (before ++ entry :: after).map Entry.data =
      before.map Entry.data ++ entry.data :: after.map Entry.data := by simp
  have sub : (before ++ after).Sublist (before ++ entry :: after) :=
    List.Sublist.append (List.Sublist.refl before) (List.sublist_cons_self entry after)
  refine ⟨fun btk => ?_, fun other among => shadows.key other (sub.subset among),
    fun other among => shadows.name other (sub.subset among), ?_, nodup.sublist (sub.map _),
    fun other => ?_⟩
  · have own := shadows.chain (hash entry.key)
    have cut : inBucket hash (hash entry.key) (before ++ entry :: after) =
        inBucket hash (hash entry.key) before ++ entry :: inBucket hash (hash entry.key) after := by
      simp [inBucket, List.filter_append]
    by_cases same : hash entry.key = btk
    · subst btk
      have bucketNodup : ((inBucket hash (hash entry.key) (before ++ entry :: after)).map
          Entry.data).Nodup := nodup.sublist (List.filter_sublist.map _)
      rw [cut, List.map_append, List.map_cons] at own bucketNodup
      have shorter := own.delInit bucketNodup (by simp)
      rwa [← List.map_append, inBucket, inBucket, ← List.filter_append] at shorter
    · have kept : inBucket hash btk (before ++ entry :: after) =
          inBucket hash btk (before ++ after) := by
        simp [inBucket, List.filter_append, same]
      have inside : entry.data ∈ (inBucket hash (hash entry.key)
          (before ++ entry :: after)).map Entry.data :=
        List.mem_map_of_mem (mem_inBucket.mpr ⟨member, rfl⟩)
      rw [← kept]
      exact own.delInit_other inside (shadows.chain btk) (Ne.symm same)
        (shadows.disjoint (Ne.symm same))
  · have erased := shadows.live.erase entry.data
    have notBefore : entry.data ∉ before.map Entry.data := by
      rw [shape] at nodup
      intro earlier
      exact (List.nodup_append.mp nodup).2.2 _ earlier _ (by simp) rfl
    rw [shape, List.erase_append_right _ notBefore, List.erase_cons_head, ← List.map_append] at erased
    exact erased
  · have balance := shadows.ledger other
    have removed : (table.live.erase entry.data).count other =
        table.live.count other - if entry.data == other then 1 else 0 := List.count_erase
    have present : 0 < table.live.count entry.data := List.count_pos_iff.mpr live
    simp only [List.count_append, List.count_singleton]
    by_cases same : entry.data = other
    · subst same
      simp only [beq_self_eq_true, if_true] at removed ⊢
      omega
    · have differs : (entry.data == other) = false := by simpa using same
      simp only [differs, Bool.false_eq_true, if_false] at removed ⊢
      omega

end LearnK.Map
