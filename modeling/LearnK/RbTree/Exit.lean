import LearnK.Lib.Ledger
import LearnK.RbTree.Map

/-! The entries from `kmalloc` to `kfree`, up to the end of `end_exit`, and how far `%s` reads in one of
them: `strncpy` leaves no NUL when the text fills the array. -/

namespace LearnK.RbTree

open CString SearchTree StepMachine Function Ledger

def opEvents (tree : MyTree) : TreeOp → List (Event Addr)
  | .insert key _ entry => if (searchNode key tree).isSome then [] else [.alloc entry]
  | .delete key => (searchNode key tree).toList.map .free

def runEvents (routines : RbRoutines) (tree : MyTree) : List TreeOp → List (Event Addr)
  | [] => []
  | op :: rest => opEvents tree op ++
      match treeStep routines tree op with
      | some next => runEvents routines next rest
      | none => []

structure Keeps (tree : MyTree) (live : Addr → Bool) : Prop where
  ordered : Ordered (fun entry => (tree.entries entry).key) (addrs tree.root)
  owned : Owned (fun _ => false) live (addrs tree.root)

def Recorded (ops : List TreeOp) (tree : MyTree) : Prop :=
  ∀ entry ∈ addrs tree.root, ∃ text, .insert (tree.entries entry).key text entry ∈ ops ∧
    (tree.entries entry).data = strncpyBytes text sizeofData

section

variable {routines : RbRoutines} {tree next : MyTree} {live : Addr → Bool}

theorem insertNode_absent {key : Int32} {data : Text} {entry : Addr} {result : Int × MyTree}
    (ordered : Ordered (fun entry => (tree.entries entry).key) (addrs tree.root))
    (absent : (searchNode key tree).isSome = false) (fresh : Fresh tree (.insert key data entry))
    (inserted : insertNode routines key data entry tree = some result) :
    entry ∉ addrs tree.root ∧
      result.2.entries = update tree.entries entry ⟨key, strncpyBytes data sizeofData⟩ ∧
      ∃ before after, addrs tree.root = before ++ after ∧
        addrs result.2.root = before ++ entry :: after ∧
        (∀ other ∈ before, (tree.entries other).key < key) ∧
        ∀ other ∈ after, key < (tree.entries other).key := by
  have granted := insertNode_granted absent inserted
  have outside := fresh absent granted
  obtain ⟨slot, found⟩ := findSlot_absent absent
  obtain ⟨before, after, shape, linked, less, more⟩ := insert_addrs routines ordered found outside
  rw [insertNode, found] at inserted
  simp only [if_neg granted, Option.some.injEq] at inserted
  subst inserted
  exact ⟨outside, rfl, before, after, shape, linked, less, more⟩

theorem Keeps.insert {key : Int32} {data : Text} {entry : Addr} {result : Int × MyTree}
    (keeps : Keeps tree live) (absent : (searchNode key tree).isSome = false)
    (fresh : Fresh tree (.insert key data entry))
    (inserted : insertNode routines key data entry tree = some result) :
    live entry = false ∧ Keeps result.2 (update live entry true) := by
  obtain ⟨outside, entries, before, after, shape, linked, less, more⟩ :=
    insertNode_absent keeps.ordered absent fresh inserted
  have dead : live entry = false := by
    by_contra held
    have member := (keeps.owned.live_iff entry).mp (by simpa using held)
    exact outside (by simpa using member)
  have kept (other : Addr) (member : other ∈ before ++ after) :
      (result.2.entries other).key = (tree.entries other).key := by
    rw [entries, update_of_ne (ne_of_mem_of_not_mem member (shape ▸ outside))]
  have here : (result.2.entries entry).key = key := by
    rw [entries, update_self]
  refine ⟨dead, ?_, ?_⟩
  · rw [linked]
    refine Ordered.insert ?_ (fun other member => ?_) fun other member => ?_
    · rw [← shape]
      refine keeps.ordered.imp_of_mem fun first second lower => ?_
      have firstKept := kept _ (shape ▸ first)
      have secondKept := kept _ (shape ▸ second)
      simpa only [firstKept, secondKept] using lower
    · rw [kept other (List.mem_append_left _ member), here]
      exact less other member
    · rw [kept other (List.mem_append_right _ member), here]
      exact more other member
  · rw [linked]
    have owned := keeps.owned.alloc dead
    rw [shape] at owned
    exact owned.perm List.perm_middle.symm

theorem Keeps.delete (routines : RbRoutines) {key : Int32} {entry : Addr} (keeps : Keeps tree live)
    (found : searchNode key tree = some entry) :
    live entry = true ∧ Keeps (deleteNode routines key tree) (update live entry false) := by
  obtain ⟨member, -⟩ := searchNode_some found
  have erased := routines.rbErase_addrs entry tree.root keeps.ordered.nodup member
  rw [deleteNode, found]
  refine ⟨(keeps.owned.live_iff entry).mpr (.inr member), ?_, ?_⟩
  · simp only [erased]
    exact keeps.ordered.sublist List.erase_sublist
  · simp only [erased]
    exact (keeps.owned.perm (List.perm_cons_erase member)).free

theorem Keeps.step {op : TreeOp} (keeps : Keeps tree live) (fresh : Fresh tree op)
    (stepped : treeStep routines tree op = some next) :
    ∃ after, run Ledger.step live (opEvents tree op) = some after ∧ Keeps next after := by
  cases op with
  | insert key data entry =>
      obtain ⟨result, inserted, rfl⟩ := Option.map_eq_some_iff.mp stepped
      cases present : (searchNode key tree).isSome with
      | true =>
          rw [insertNode_present present] at inserted
          obtain rfl := Option.some.inj inserted
          exact ⟨live, by simp [opEvents, present], keeps⟩
      | false =>
          obtain ⟨dead, kept⟩ := keeps.insert present fresh inserted
          refine ⟨_, ?_, kept⟩
          simp [opEvents, present, run_cons, step_alloc dead]
  | delete key =>
      obtain rfl := Option.some.inj stepped
      cases found : searchNode key tree with
      | none =>
          refine ⟨live, by simp [opEvents, found], ?_⟩
          rw [deleteNode, found]
          exact keeps
      | some entry =>
          obtain ⟨held, kept⟩ := keeps.delete routines found
          refine ⟨_, ?_, kept⟩
          simp [opEvents, found, run_cons, step_free held]

theorem Keeps.run {ops : List TreeOp} {final : MyTree} (keeps : Keeps tree live)
    (fresh : EachStep (treeStep routines) Fresh tree ops)
    (ran : run (treeStep routines) tree ops = some final) :
    ∃ after, StepMachine.run Ledger.step live (runEvents routines tree ops) = some after ∧
      Keeps final after := by
  induction ops generalizing tree live with
  | nil =>
      obtain rfl := Option.some.inj ran
      exact ⟨live, rfl, keeps⟩
  | cons op rest ih =>
      obtain ⟨next, stepped, remaining⟩ := run_cons_some ran
      obtain ⟨here, others⟩ := fresh next stepped
      obtain ⟨middle, first, kept⟩ := keeps.step here stepped
      obtain ⟨after, later, finalKeeps⟩ := ih kept others remaining
      refine ⟨after, ?_, finalKeeps⟩
      rw [runEvents, stepped, run_append, first]
      exact later

theorem Recorded.step {op : TreeOp} {ops : List TreeOp} (keeps : Keeps tree live)
    (recorded : Recorded ops tree) (fresh : Fresh tree op)
    (stepped : treeStep routines tree op = some next) :
    Recorded (ops ++ [op]) next := by
  have earlier (same : next.entries = tree.entries)
      (fewer : ∀ entry ∈ addrs next.root, entry ∈ addrs tree.root) :
      Recorded (ops ++ [op]) next := by
    intro entry member
    obtain ⟨text, inserted, data⟩ := recorded entry (fewer entry member)
    rw [same]
    exact ⟨text, List.mem_append_left _ inserted, data⟩
  cases op with
  | insert key data entry =>
      obtain ⟨result, inserted, rfl⟩ := Option.map_eq_some_iff.mp stepped
      cases present : (searchNode key tree).isSome with
      | true =>
          rw [insertNode_present present] at inserted
          obtain rfl := Option.some.inj inserted
          exact earlier rfl fun _ member => member
      | false =>
          obtain ⟨outside, entries, before, after, shape, linked, -, -⟩ :=
            insertNode_absent keeps.ordered present fresh inserted
          intro other member
          rw [linked, List.mem_append, List.mem_cons] at member
          by_cases same : other = entry
          · subst same
            rw [entries, update_self]
            exact ⟨data, by simp, rfl⟩
          · have old : other ∈ addrs tree.root := by
              rw [shape, List.mem_append]
              grind
            obtain ⟨text, before, kept⟩ := recorded other old
            rw [entries, update_of_ne same]
            exact ⟨text, List.mem_append_left _ before, kept⟩
  | delete key =>
      obtain rfl := Option.some.inj stepped
      cases found : searchNode key tree with
      | none =>
          refine earlier (by rw [deleteNode, found]) fun entry member => ?_
          rw [deleteNode, found] at member
          exact member
      | some entry =>
          obtain ⟨present, -⟩ := searchNode_some found
          refine earlier (by rw [deleteNode, found]) fun other member => ?_
          rw [deleteNode, found] at member
          simp only [routines.rbErase_addrs entry tree.root keeps.ordered.nodup present] at member
          exact List.mem_of_mem_erase member

theorem Recorded.run {done ops : List TreeOp} {final : MyTree} (keeps : Keeps tree live)
    (recorded : Recorded done tree) (fresh : EachStep (treeStep routines) Fresh tree ops)
    (ran : run (treeStep routines) tree ops = some final) :
    Recorded (done ++ ops) final := by
  induction ops generalizing tree live done with
  | nil =>
      obtain rfl := Option.some.inj ran
      simpa using recorded
  | cons op rest ih =>
      obtain ⟨next, stepped, remaining⟩ := run_cons_some ran
      obtain ⟨here, others⟩ := fresh next stepped
      obtain ⟨middle, -, kept⟩ := keeps.step here stepped
      simpa using ih kept (recorded.step keeps here stepped) others remaining

end

theorem keeps_empty (entries : Addr → MyEntry) : Keeps (.empty entries) fun _ => false :=
  ⟨List.Pairwise.nil, Owned.start _⟩

theorem terminated_strncpyBytes (text : Text) :
    0 ∈ strncpyBytes text sizeofData ↔ text.strlen < sizeofData := by
  have plain : 0 ∉ text.bytes.take sizeofData := fun member =>
    text.noNul 0 (List.mem_of_mem_take member) rfl
  rw [strncpyBytes, List.mem_append, or_iff_right plain, List.mem_replicate, and_iff_left rfl]
  omega

/-- Insertions and deletions in any order, and `end_exit` at the end: the loop of the exit ends with
an empty tree, and each entry that `insert_node` allocated is freed once, while it is allocated. -/
theorem rbtree_frees_entries (routines : RbRoutines) (entries : Addr → MyEntry) (ops : List TreeOp)
    (final : MyTree) (fresh : EachStep (treeStep routines) Fresh (.empty entries) ops)
    (ran : run (treeStep routines) (.empty entries) ops = some final) (fuel : Nat)
    (enough : (addrs final.root).length < fuel) :
    ∃ freed last, endExit routines fuel final = some (freed, last) ∧ addrs last.root = [] ∧
      (run Ledger.step (fun _ => false)
        (runEvents routines (.empty entries) ops ++ freed.map .free)).isSome = true ∧
      FreedOnce (runEvents routines (.empty entries) ops ++ freed.map .free) := by
  obtain ⟨live, replayed, keeps⟩ := (keeps_empty entries).run fresh ran
  have emptied : ∃ last, endExit routines fuel final = some (addrs final.root, last) ∧
      addrs last.root = [] := endExit_eq keeps.ordered.nodup rfl enough
  obtain ⟨last, freed, empty⟩ := emptied
  obtain ⟨after, returned, owned⟩ := (List.append_nil (addrs final.root) ▸ keeps.owned).free_all
  have whole : run Ledger.step (fun _ => false)
      (runEvents routines (.empty entries) ops ++ (addrs final.root).map .free) = some after := by
    rw [run_append, replayed]
    exact returned
  refine ⟨addrs final.root, last, freed, empty, by rw [whole]; rfl, ?_⟩
  exact (owned.freedOnce_iff whole fun _ _ => rfl).mpr rfl

theorem rbtree_frees_entries_twoLeft : ∃ freed last,
    (run (treeStep plainRoutines) (.empty fun _ => ⟨0, []⟩)
      [.insert 100 entryText 4096, .insert (-5) entryText 8192, .insert 100 entryText 12288]).bind
        (endExit plainRoutines 3) = some (freed, last) ∧
    FreedOnce (runEvents plainRoutines (.empty fun _ => ⟨0, []⟩)
      [.insert 100 entryText 4096, .insert (-5) entryText 8192, .insert 100 entryText 12288] ++
        freed.map .free) := by
  obtain ⟨final, ran⟩ := Option.isSome_iff_exists.mp (by decide :
    (run (treeStep plainRoutines) (.empty fun _ => ⟨0, []⟩)
      [.insert 100 entryText 4096, .insert (-5) entryText 8192,
        .insert 100 entryText 12288]).isSome = true)
  have two : (addrs final.root).length < 3 := by
    have counted : ((run (treeStep plainRoutines) (.empty fun _ => ⟨0, []⟩)
        [.insert 100 entryText 4096, .insert (-5) entryText 8192, .insert 100 entryText 12288]).map
          fun tree => decide ((addrs tree.root).length < 3)) = some true := by decide
    rw [ran] at counted
    simpa using counted
  obtain ⟨freed, last, ended, -, -, once⟩ :=
    rbtree_frees_entries plainRoutines _ _ final (by decide) ran 3 two
  exact ⟨freed, last, by rw [ran]; exact ended, once⟩

/-- Each entry in the tree holds the text of one of the insertions, and the `%s` of
`print_all_entries` finds a NUL inside the array exactly when that text is shorter than the array. -/
theorem printAllEntries_inside_iff (routines : RbRoutines) (entries : Addr → MyEntry) (ops : List TreeOp)
    (final : MyTree) (fresh : EachStep (treeStep routines) Fresh (.empty entries) ops)
    (ran : run (treeStep routines) (.empty entries) ops = some final) :
    ∃ texts : Addr → Text,
      (∀ entry ∈ addrs final.root, .insert (final.entries entry).key (texts entry) entry ∈ ops ∧
        (final.entries entry).data = strncpyBytes (texts entry) sizeofData) ∧
      ((∀ entry ∈ addrs final.root, 0 ∈ (final.entries entry).data) ↔
        ∀ entry ∈ addrs final.root, (texts entry).strlen < sizeofData) := by
  have nothing : Recorded [] (.empty entries) := fun entry member => by
    simp [MyTree.empty, addrs] at member
  have recorded : Recorded ops final := nothing.run (keeps_empty entries) fresh ran
  let texts (entry : Addr) : Text :=
    if member : entry ∈ addrs final.root then (recorded entry member).choose else ⟨[], by simp⟩
  have told (entry : Addr) (member : entry ∈ addrs final.root) :
      .insert (final.entries entry).key (texts entry) entry ∈ ops ∧
        (final.entries entry).data = strncpyBytes (texts entry) sizeofData := by
    simp only [texts, dif_pos member]
    exact (recorded entry member).choose_spec
  refine ⟨texts, told, forall₂_congr fun entry member => ?_⟩
  rw [(told entry member).2]
  exact terminated_strncpyBytes (texts entry)

def fullText : Text := ⟨List.replicate 64 65, by simp⟩

theorem printAllEntries_inside_iff_fullText : ∃ final, ∃ texts : Addr → Text,
    run (treeStep plainRoutines) (.empty fun _ => ⟨0, []⟩)
      [.insert 100 entryText 4096, .insert 7 fullText 8192] = some final ∧
    ((∀ entry ∈ addrs final.root, 0 ∈ (final.entries entry).data) ↔
      ∀ entry ∈ addrs final.root, (texts entry).strlen < sizeofData) ∧
    ¬∀ entry ∈ addrs final.root, 0 ∈ (final.entries entry).data := by
  obtain ⟨final, ran⟩ := Option.isSome_iff_exists.mp (by decide :
    (run (treeStep plainRoutines) (.empty fun _ => ⟨0, []⟩)
      [.insert 100 entryText 4096, .insert 7 fullText 8192]).isSome = true)
  obtain ⟨texts, -, inside⟩ := printAllEntries_inside_iff plainRoutines _ _ final (by decide) ran
  have runsOn : ((run (treeStep plainRoutines) (.empty fun _ => ⟨0, []⟩)
      [.insert 100 entryText 4096, .insert 7 fullText 8192]).map fun tree : MyTree =>
        decide (∀ entry ∈ addrs tree.root, 0 ∈ (tree.entries entry).data)) = some false := by decide
  rw [ran] at runsOn
  exact ⟨final, texts, ran, inside, by simpa using runsOn⟩

end LearnK.RbTree
