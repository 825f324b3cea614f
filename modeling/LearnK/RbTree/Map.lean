import LearnK.RbTree.Keyed

/-! The tree module as a finite map from keys to texts, along every run of insertions and
deletions. -/

namespace LearnK.RbTree

open CString SearchTree StepMachine Function

def recordStep (key : Int32) (found : Option Text) : TreeOp → Option Text
  | .insert other data _ => if other = key then some (found.getD data) else found
  | .delete other => if other = key then none else found

def recorded (ops : List TreeOp) (key : Int32) : Option Text := ops.foldl (recordStep key) none

def TreeOp.Fits : TreeOp → Prop
  | .insert _ data _ => data.strlen < sizeofData
  | .delete _ => True

structure Stores (tree : MyTree) (contents : Int32 → Option Text) : Prop where
  ordered : Ordered (fun entry => (tree.entries entry).key) (addrs tree.root)
  sound : ∀ entry ∈ addrs tree.root, ∃ text, contents (tree.entries entry).key = some text ∧
    text.strlen < sizeofData ∧ (tree.entries entry).data = strncpyBytes text sizeofData
  complete : ∀ key, (contents key).isSome = true →
    ∃ entry ∈ addrs tree.root, (tree.entries entry).key = key

theorem cString_strncpyBytes {text : Text} (fits : text.strlen < sizeofData) :
    cString (strncpyBytes text sizeofData) = text.bytes := by
  have whole : text.bytes.take sizeofData = text.bytes :=
    List.take_of_length_le (Nat.le_of_lt fits)
  have padded : 0 < sizeofData - text.strlen := by omega
  obtain ⟨more, padding⟩ := Nat.exists_eq_succ_of_ne_zero (Nat.ne_of_gt padded)
  rw [cString, strncpyBytes, whole, padding, List.replicate_succ,
    List.takeWhile_append_of_pos (by simpa using text.noNul)]
  simp

section Queries

variable {tree : MyTree} {contents : Int32 → Option Text}

theorem searchNode_some {key : Int32} {entry : Addr} (found : searchNode key tree = some entry) :
    entry ∈ addrs tree.root ∧ (tree.entries entry).key = key :=
  @find_addr_some _ _ (fun entry => (tree.entries entry).key) _ _ _ found

theorem Stores.searchNode_none {key : Int32} (stores : Stores tree contents)
    (missing : searchNode key tree = none) :
    ∀ entry ∈ addrs tree.root, (tree.entries entry).key ≠ key :=
  find_addr_none stores.ordered missing

theorem Stores.searchNode_eq (stores : Stores tree contents) (key : Int32) :
    (searchNode key tree).map (fun entry => cString (tree.entries entry).data) =
      (contents key).map Text.bytes := by
  cases found : searchNode key tree with
  | none =>
      have absent := stores.searchNode_none found
      have nothing : contents key = none := by
        by_contra present
        obtain ⟨entry, member, same⟩ := stores.complete key (Option.isSome_iff_ne_none.mpr present)
        exact absent entry member same
      rw [nothing]
      rfl
  | some entry =>
      obtain ⟨member, rfl⟩ := searchNode_some found
      obtain ⟨text, held, fits, data⟩ := stores.sound entry member
      rw [held, Option.map_some, Option.map_some, data, cString_strncpyBytes fits]

theorem Stores.searchNode_isSome (stores : Stores tree contents) (key : Int32) :
    (searchNode key tree).isSome = (contents key).isSome := by
  have same := congrArg Option.isSome (stores.searchNode_eq key)
  simpa using same

theorem findSlot_none_iff (key : Int32) (tree : MyTree) :
    findSlot tree.keyOf key tree.root = none ↔ (searchNode key tree).isSome = true := by
  rw [findSlot_eq_none_iff, searchNode, Option.isSome_map]

end Queries

section Steps

variable {routines : RbRoutines} {tree : MyTree} {contents : Int32 → Option Text}

theorem insertNode_present {key : Int32} {data : Text} {entry : Addr}
    (present : (searchNode key tree).isSome = true) :
    insertNode routines key data entry tree = some (-eexist, tree) := by
  rw [insertNode, (findSlot_none_iff key tree).mpr present]

theorem findSlot_absent {key : Int32} (absent : (searchNode key tree).isSome = false) :
    ∃ slot, findSlot tree.keyOf key tree.root = some slot := by
  rw [← Option.isSome_iff_exists, Option.isSome_iff_ne_none, Ne, findSlot_none_iff, absent]
  exact Bool.false_ne_true

theorem insertNode_null {key : Int32} {data : Text} (absent : (searchNode key tree).isSome = false) :
    insertNode routines key data 0 tree = none := by
  obtain ⟨slot, found⟩ := findSlot_absent absent
  rw [insertNode, found]
  rfl

theorem insertNode_granted {key : Int32} {data : Text} {entry : Addr} {result : Int × MyTree}
    (absent : (searchNode key tree).isSome = false)
    (inserted : insertNode routines key data entry tree = some result) : entry ≠ 0 := by
  rintro rfl
  rw [insertNode_null absent] at inserted
  simp at inserted

theorem Stores.extend (stores : Stores tree contents) {root : RbRoot} {before after : List Addr}
    {key : Int32} {data : Text} {entry : Addr} (shape : addrs tree.root = before ++ after)
    (inserted : addrs root = before ++ entry :: after)
    (less : ∀ other ∈ before, (tree.entries other).key < key)
    (more : ∀ other ∈ after, key < (tree.entries other).key) (outside : entry ∉ addrs tree.root)
    (nothing : contents key = none) (fits : data.strlen < sizeofData) :
    Stores ⟨root, update tree.entries entry ⟨key, strncpyBytes data sizeofData⟩⟩
      (update contents key (some data)) := by
  have kept (other : Addr) (member : other ∈ addrs tree.root) :
      update tree.entries entry ⟨key, strncpyBytes data sizeofData⟩ other = tree.entries other := by
    refine update_of_ne ?_ _ _
    rintro rfl
    exact outside member
  have member_iff (other : Addr) : other ∈ before ++ entry :: after ↔
      other = entry ∨ other ∈ addrs tree.root := by
    rw [shape, List.mem_append, List.mem_cons, List.mem_append]
    grind
  constructor
  · simp only [inserted]
    refine Ordered.insert ?_ ?_ ?_
    · rw [← shape]
      refine stores.ordered.imp_of_mem ?_
      intro first second firstMember secondMember lower
      simp only [kept first firstMember, kept second secondMember]
      exact lower
    · intro other member
      rw [kept other (shape ▸ List.mem_append_left _ member), update_self]
      exact less other member
    · intro other member
      rw [kept other (shape ▸ List.mem_append_right _ member), update_self]
      exact more other member
  · intro other member
    simp only [inserted, member_iff] at member ⊢
    rcases member with rfl | old
    · exact ⟨data, by simp, fits, by simp⟩
    · obtain ⟨text, held, short, bytes⟩ := stores.sound other old
      have different : (tree.entries other).key ≠ key := by
        intro same
        rw [same, nothing] at held
        simp at held
      rw [kept other old]
      exact ⟨text, by rw [update_of_ne different, held], short, bytes⟩
  · intro wanted present
    simp only [inserted, member_iff]
    by_cases same : wanted = key
    · exact ⟨entry, .inl rfl, by simp [same]⟩
    · rw [update_of_ne same] at present
      obtain ⟨other, old, sameKey⟩ := stores.complete wanted present
      exact ⟨other, .inr old, by rw [kept other old]; exact sameKey⟩

theorem Stores.insertNode_absent (stores : Stores tree contents) (routines : RbRoutines) {key : Int32}
    {data : Text} {entry : Addr} (absent : (searchNode key tree).isSome = false)
    (granted : entry ≠ 0) (outside : entry ∉ addrs tree.root) (fits : data.strlen < sizeofData) :
    ∃ next, insertNode routines key data entry tree = some (0, next) ∧
      Stores next (update contents key (some data)) := by
  obtain ⟨slot, found⟩ := findSlot_absent absent
  obtain ⟨before, after, shape, inserted, less, more⟩ :=
    insert_addrs routines stores.ordered found outside
  have nothing : contents key = none := by
    rw [stores.searchNode_isSome] at absent
    simpa using absent
  refine ⟨_, ?_, stores.extend shape inserted less more outside nothing fits⟩
  rw [insertNode, found]
  exact if_neg granted

theorem Stores.deleteNode (stores : Stores tree contents) (routines : RbRoutines) (key : Int32) :
    Stores (deleteNode routines key tree) (update contents key none) := by
  rw [RbTree.deleteNode]
  cases found : searchNode key tree with
  | none =>
      have nothing : contents key = none := by
        have absent := stores.searchNode_isSome key
        rw [found] at absent
        simpa using absent.symm
      rw [← nothing, update_eq_self]
      exact stores
  | some entry =>
      obtain ⟨member, rfl⟩ := searchNode_some found
      have erased := routines.rbErase_addrs entry tree.root stores.ordered.nodup member
      refine ⟨?_, ?_, ?_⟩
      · simp only [erased]
        exact stores.ordered.sublist List.erase_sublist
      · intro other remains
        simp only [erased] at remains
        obtain ⟨different, old⟩ := (stores.ordered.nodup.mem_erase_iff).mp remains
        obtain ⟨text, held, short, bytes⟩ := stores.sound other old
        have differentKey : (tree.entries other).key ≠ (tree.entries entry).key := by
          intro same
          exact different (stores.ordered.injective old member same)
        exact ⟨text, by rw [update_of_ne differentKey, held], short, bytes⟩
      · intro wanted present
        have differentKey : wanted ≠ (tree.entries entry).key := by
          rintro rfl
          simp at present
        rw [update_of_ne differentKey] at present
        obtain ⟨other, old, rfl⟩ := stores.complete wanted present
        simp only [erased]
        refine ⟨other, (stores.ordered.nodup.mem_erase_iff).mpr ⟨?_, old⟩, rfl⟩
        rintro rfl
        exact differentKey rfl

theorem recordStep_insert (contents : Int32 → Option Text) (key : Int32) (data : Text)
    (entry : Addr) :
    (fun other => recordStep other (contents other) (.insert key data entry)) =
      update contents key (some ((contents key).getD data)) := by
  funext other
  by_cases same : key = other
  · simp [recordStep, same]
  · simp [recordStep, same, update_of_ne (Ne.symm same)]

theorem recordStep_delete (contents : Int32 → Option Text) (key : Int32) :
    (fun other => recordStep other (contents other) (.delete key)) = update contents key none := by
  funext other
  by_cases same : key = other
  · simp [recordStep, same]
  · simp [recordStep, same, update_of_ne (Ne.symm same)]

theorem Stores.step (stores : Stores tree contents) {op : TreeOp} {next : MyTree} (fits : op.Fits)
    (fresh : Fresh tree op) (stepped : treeStep routines tree op = some next) :
    Stores next fun key => recordStep key (contents key) op := by
  cases op with
  | delete key =>
      obtain rfl := Option.some.inj stepped
      rw [recordStep_delete]
      exact stores.deleteNode routines key
  | insert key data entry =>
      obtain ⟨⟨status, after⟩, inserted, rfl⟩ := Option.map_eq_some_iff.mp stepped
      rw [recordStep_insert]
      cases present : (searchNode key tree).isSome with
      | true =>
          rw [insertNode_present present] at inserted
          obtain ⟨-, rfl⟩ := Prod.mk.inj (Option.some.inj inserted)
          rw [stores.searchNode_isSome] at present
          obtain ⟨text, held⟩ := Option.isSome_iff_exists.mp present
          rw [held, Option.getD_some, ← held, update_eq_self]
          exact stores
      | false =>
          have granted := insertNode_granted present inserted
          obtain ⟨other, inserted', storesNext⟩ :=
            stores.insertNode_absent routines present granted (fresh present granted) fits
          obtain ⟨-, rfl⟩ := Prod.mk.inj (Option.some.inj (inserted'.symm.trans inserted))
          rw [stores.searchNode_isSome] at present
          have nothing : contents key = none := by simpa using present
          rw [nothing]
          exact storesNext

theorem Stores.run {ops : List TreeOp} {final : MyTree} (stores : Stores tree contents)
    (fits : ∀ op ∈ ops, op.Fits) (fresh : EachStep (treeStep routines) Fresh tree ops)
    (ran : run (treeStep routines) tree ops = some final) :
    Stores final fun key => ops.foldl (recordStep key) (contents key) := by
  induction ops generalizing tree contents with
  | nil =>
      obtain rfl := Option.some.inj ran
      exact stores
  | cons op rest ih =>
      obtain ⟨next, stepped, remaining⟩ := run_cons_some ran
      obtain ⟨here, later⟩ := fresh next stepped
      have storesNext := stores.step (fits op (by simp)) here stepped
      exact ih storesNext (fun other member => fits other (by simp [member])) later remaining

theorem treeStep_none_iff (stores : Stores tree contents) (op : TreeOp) :
    treeStep routines tree op = none ↔
      ∃ key data, op = .insert key data 0 ∧ contents key = none := by
  cases op with
  | delete key => simp [treeStep]
  | insert key data entry =>
      have known := stores.searchNode_isSome key
      rw [treeStep, Option.map_eq_none_iff]
      cases present : (searchNode key tree).isSome with
      | true =>
          rw [present] at known
          rw [insertNode_present present]
          grind
      | false =>
          obtain ⟨slot, found⟩ := findSlot_absent present
          rw [present] at known
          have absent : contents key = none := by simpa using known.symm
          rw [insertNode, found]
          by_cases null : entry = 0
          · exact iff_of_true (if_pos null) ⟨key, data, by rw [null], absent⟩
          · simp [null]

/-- Every insertion of an absent key gets memory; `contents` is what was there before. -/
def Granted (contents : Int32 → Option Text) (ops : List TreeOp) : Prop :=
  ∀ before key data entry after, ops = before ++ .insert key data entry :: after →
    before.foldl (recordStep key) (contents key) = none → entry ≠ 0

theorem granted_cons (contents : Int32 → Option Text) (op : TreeOp) (rest : List TreeOp) :
    Granted contents (op :: rest) ↔
      (¬∃ key data, op = .insert key data 0 ∧ contents key = none) ∧
        Granted (fun key => recordStep key (contents key) op) rest := by
  constructor
  · intro granted
    refine ⟨?_, ?_⟩
    · rintro ⟨key, data, rfl, absent⟩
      exact granted [] key data 0 rest rfl absent rfl
    · intro before key data entry after shape absent
      exact granted (op :: before) key data entry after (by rw [shape]; rfl) absent
  · rintro ⟨here, later⟩ before key data entry after shape absent
    cases before with
    | nil =>
        obtain ⟨rfl, -⟩ := List.cons.inj shape
        rintro rfl
        exact here ⟨key, data, rfl, absent⟩
    | cons first before =>
        obtain ⟨rfl, shifted⟩ := List.cons.inj shape
        exact later before key data entry after shifted absent

theorem Stores.runs_iff {ops : List TreeOp} (stores : Stores tree contents)
    (fits : ∀ op ∈ ops, op.Fits) (fresh : EachStep (treeStep routines) Fresh tree ops) :
    (∃ final, StepMachine.run (treeStep routines) tree ops = some final) ↔ Granted contents ops := by
  induction ops generalizing tree contents with
  | nil => exact iff_of_true ⟨tree, rfl⟩ fun before _ _ _ _ shape => by simp at shape
  | cons op rest ih =>
      have stops : treeStep routines tree op = none ↔ _ := treeStep_none_iff stores op
      rw [granted_cons, ← stops, run_cons]
      cases stepped : treeStep routines tree op with
      | none => simp
      | some next =>
          obtain ⟨here, later⟩ := fresh next stepped
          have storesNext := stores.step (fits op (by simp)) here stepped
          simpa using ih storesNext (fun other member => fits other (by simp [member])) later

theorem printLoop_eq {before rest : List Addr} {fuel : Nat} (nodup : (addrs tree.root).Nodup)
    (shape : addrs tree.root = before ++ rest) (enough : rest.length ≤ fuel) :
    printLoop routines tree fuel rest.head? = some (rest.map tree.line) := by
  induction rest generalizing before fuel with
  | nil =>
      rw [List.head?_nil, printLoop]
      rfl
  | cons entry rest ih =>
      obtain ⟨more, rfl⟩ : ∃ more, fuel = more + 1 := ⟨fuel - 1, by simp at enough; omega⟩
      have next := routines.rbNext_eq tree.root before entry rest nodup shape
      have later : addrs tree.root = (before ++ [entry]) ++ rest := by simpa using shape
      rw [List.head?_cons, printLoop, next, ih later (by simpa using enough)]
      rfl

theorem printAllEntries_eq {fuel : Nat} (nodup : (addrs tree.root).Nodup)
    (enough : (addrs tree.root).length ≤ fuel) :
    printAllEntries routines fuel tree = some ((addrs tree.root).map tree.line) := by
  rw [printAllEntries, routines.rbFirst_eq]
  have whole : addrs tree.root = [] ++ addrs tree.root := rfl
  exact printLoop_eq nodup whole enough

theorem endExit_eq {entries : List Addr} {fuel : Nat} (nodup : (addrs tree.root).Nodup)
    (shape : addrs tree.root = entries) (enough : entries.length < fuel) :
    ∃ final, endExit routines fuel tree = some (entries, final) ∧ addrs final.root = [] := by
  induction entries generalizing tree fuel with
  | nil =>
      obtain ⟨more, rfl⟩ : ∃ more, fuel = more + 1 := ⟨fuel - 1, by omega⟩
      refine ⟨tree, ?_, shape⟩
      rw [endExit, routines.rbFirst_eq, shape]
      rfl
  | cons entry rest ih =>
      obtain ⟨more, rfl⟩ : ∃ more, fuel = more + 1 := ⟨fuel - 1, by omega⟩
      obtain ⟨first, erased, restNodup⟩ := routines.first_erased nodup shape
      obtain ⟨final, freed, empty⟩ := @ih { tree with root := routines.rbErase entry tree.root } more
        restNodup erased (by simpa using enough)
      refine ⟨final, ?_, empty⟩
      rw [endExit, first]
      simp only
      rw [freed]
      rfl

theorem Stores.insertNode_changes (stores : Stores tree contents) (routines : RbRoutines)
    {key : Int32} {data : Text} {entry : Addr} (absent : contents key = none) (granted : entry ≠ 0)
    (outside : entry ∉ addrs tree.root) (fits : data.strlen < sizeofData) :
    ∃ next, insertNode routines key data entry tree = some (0, next) ∧ next ≠ tree := by
  have missing : (searchNode key tree).isSome = false := by
    rw [stores.searchNode_isSome, absent]
    rfl
  obtain ⟨next, inserted, storesNext⟩ :=
    stores.insertNode_absent routines missing granted outside fits
  refine ⟨next, inserted, ?_⟩
  rintro rfl
  rw [storesNext.searchNode_isSome, update_self] at missing
  simp at missing

theorem Stores.printAllEntries (stores : Stores tree contents) (routines : RbRoutines) {fuel : Nat}
    (enough : (addrs tree.root).length ≤ fuel) :
    ∃ lines, printAllEntries routines fuel tree = some lines ∧
      (lines.map PrintedEntry.key).Pairwise (· < ·) ∧
      ∀ key bytes, ⟨key, bytes⟩ ∈ lines ↔ (contents key).map Text.bytes = some bytes := by
  refine ⟨_, printAllEntries_eq stores.ordered.nodup enough, ?_, ?_⟩
  · rw [List.map_map, List.pairwise_map]
    exact stores.ordered
  · intro key bytes
    rw [List.mem_map]
    constructor
    · rintro ⟨entry, member, same⟩
      obtain ⟨text, held, fits, data⟩ := stores.sound entry member
      obtain ⟨rfl, rfl⟩ := PrintedEntry.mk.inj same
      rw [held, Option.map_some, data, cString_strncpyBytes fits]
    · intro held
      obtain ⟨text, present, rfl⟩ := Option.map_eq_some_iff.mp held
      obtain ⟨entry, member, rfl⟩ := stores.complete key (by simp [present])
      obtain ⟨other, sound, fits, data⟩ := stores.sound entry member
      obtain rfl : text = other := Option.some.inj (present.symm.trans sound)
      refine ⟨entry, member, ?_⟩
      rw [MyTree.line, data, cString_strncpyBytes fits]

end Steps

/-- The module as the map: the keys in order, what a search finds, which insertions are refused, and
what is printed. -/
structure MyTree.IsMap (routines : RbRoutines) (contents : Int32 → Option Text) (tree : MyTree) :
    Prop where
  increasing : ((addrs tree.root).map fun entry => (tree.entries entry).key).Pairwise (· < ·)
  searched : ∀ key, (∀ entry, searchNode key tree = some entry → (tree.entries entry).key = key) ∧
    (searchNode key tree).map (fun entry => cString (tree.entries entry).data) =
      (contents key).map Text.bytes
  refused : ∀ key data entry next, insertNode routines key data entry tree = some (-eexist, next) ↔
    (contents key).isSome = true ∧ next = tree
  inserted : ∀ key data entry, contents key = none → entry ≠ 0 → entry ∉ addrs tree.root →
    data.strlen < sizeofData →
      ∃ next, insertNode routines key data entry tree = some (0, next) ∧ next ≠ tree
  printed : ∀ fuel, (addrs tree.root).length ≤ fuel →
    ∃ lines, printAllEntries routines fuel tree = some lines ∧
      (lines.map PrintedEntry.key).Pairwise (· < ·) ∧
      ∀ key bytes, ⟨key, bytes⟩ ∈ lines ↔ (contents key).map Text.bytes = some bytes

theorem Stores.insertNode_refused {tree : MyTree} {contents : Int32 → Option Text}
    (stores : Stores tree contents) (routines : RbRoutines) (key : Int32) (data : Text) (entry : Addr)
    (next : MyTree) :
    insertNode routines key data entry tree = some (-eexist, next) ↔
      (contents key).isSome = true ∧ next = tree := by
  rw [← stores.searchNode_isSome]
  cases present : (searchNode key tree).isSome with
  | true =>
      rw [insertNode_present present]
      simp [eq_comm]
  | false =>
      obtain ⟨slot, found⟩ := findSlot_absent present
      rw [insertNode, found]
      by_cases null : entry = 0
      · simp [null]
      · simp [null, eexist]

theorem Stores.isMap {tree : MyTree} {contents : Int32 → Option Text} (stores : Stores tree contents)
    (routines : RbRoutines) : tree.IsMap routines contents where
  increasing := List.pairwise_map.mpr stores.ordered
  searched key := ⟨fun _ found => (searchNode_some found).2, stores.searchNode_eq key⟩
  refused := stores.insertNode_refused routines
  inserted _ _ _ := stores.insertNode_changes routines
  printed _ := stores.printAllEntries routines

theorem stores_empty (entries : Addr → MyEntry) : Stores (.empty entries) fun _ => none :=
  ⟨List.Pairwise.nil, by simp [MyTree.empty, addrs], by simp⟩

/-- A run of insertions and deletions from the empty tree gets through and leaves the finite map of
what it recorded, if and only if `kmalloc` has memory for every absent key that is inserted. -/
theorem myTree_refines_map_iff (routines : RbRoutines) (entries : Addr → MyEntry) (ops : List TreeOp)
    (fits : ∀ op ∈ ops, op.Fits) (fresh : EachStep (treeStep routines) Fresh (.empty entries) ops) :
    (∃ final, run (treeStep routines) (.empty entries) ops = some final ∧
      final.IsMap routines (recorded ops)) ↔
    ∀ before key data entry after, ops = before ++ .insert key data entry :: after →
      recorded before key = none → entry ≠ 0 := by
  have runs := (stores_empty entries).runs_iff fits fresh
  constructor
  · rintro ⟨final, ran, -⟩
    exact runs.mp ⟨final, ran⟩
  · intro granted
    obtain ⟨final, ran⟩ := runs.mpr granted
    have stores : Stores final (recorded ops) := (stores_empty entries).run fits fresh ran
    exact ⟨final, ran, stores.isMap routines⟩

def blackenRoot (node : Addr) : RbRoot → RbRoot
  | .nil => .nil
  | .node here left right =>
      if here.addr = node then .node ⟨here.addr, .black⟩ left right else .node here left right

def join : RbRoot → RbRoot → RbRoot
  | .nil, right => right
  | .node here left inner, right => .node here left (join inner right)

def unlink (node : Addr) : RbRoot → RbRoot
  | .nil => .nil
  | .node here left right =>
      if here.addr = node then join left right
      else .node here (unlink node left) (unlink node right)

@[simp] theorem addrs_node (here : RbNode) (left right : RbRoot) :
    addrs (.node here left right) = addrs left ++ here.addr :: addrs right := by
  simp [addrs]

theorem addrs_join (left right : RbRoot) : addrs (join left right) = addrs left ++ addrs right := by
  induction left with
  | nil => rfl
  | node here outer inner outerIh innerIh => simp [join, innerIh]

theorem addrs_unlink (node : Addr) (root : RbRoot) (nodup : (addrs root).Nodup) :
    addrs (unlink node root) = (addrs root).erase node := by
  induction root with
  | nil => rfl
  | node here left right leftIh rightIh =>
      rw [addrs_node, List.nodup_middle, List.nodup_cons, List.nodup_append] at nodup
      obtain ⟨outside, leftNodup, rightNodup, apart⟩ := nodup
      rw [List.mem_append, not_or] at outside
      rw [unlink, addrs_node]
      by_cases found : here.addr = node
      · subst found
        rw [if_pos rfl, addrs_join, List.erase_append_right _ outside.1, List.erase_cons_head]
      · rw [if_neg found, addrs_node, leftIh leftNodup, rightIh rightNodup, List.erase_append]
        split
        · rename_i inLeft
          have notRight : node ∉ addrs right := fun inRight => apart node inLeft node inRight rfl
          rw [List.erase_of_not_mem notRight]
        · rename_i notLeft
          rw [List.erase_of_not_mem notLeft, List.erase_cons_tail (by simpa using found)]

/-- Routines that do what the kernel's do when at most two nodes are linked and a leaf is erased. -/
def plainRoutines : RbRoutines where
  rbInsertColor := blackenRoot
  rbErase := unlink
  rbFirst root := (addrs root).head?
  rbNext node root := ((addrs root).dropWhile (· ≠ node)).tail.head?
  rbInsertColor_addrs node root _ _ := by
    cases root with
    | nil => rfl
    | node here left right =>
        rw [blackenRoot]
        split <;> simp
  rbErase_addrs node root nodup _ := addrs_unlink node root nodup
  rbFirst_eq _ := rfl
  rbNext_eq root before node after nodup shape := by
    rw [shape, List.nodup_middle, List.nodup_cons, List.mem_append, not_or] at nodup
    have skipped : ∀ other ∈ before, decide (other ≠ node) = true := by
      intro other member
      rw [decide_eq_true_iff]
      rintro rfl
      exact nodup.1.1 member
    rw [shape, List.dropWhile_append_of_pos skipped]
    simp

def entryText : Text := ⟨[49], by simp⟩

theorem myTree_refines_map_iff_twoEntries :
    ∃ final, run (treeStep plainRoutines) (.empty fun _ => ⟨0, []⟩)
        [.insert 100 entryText 4096, .insert (-5) entryText 8192, .insert 100 entryText 0,
          .delete (-5)] = some final ∧
      final.IsMap plainRoutines (recorded [.insert 100 entryText 4096, .insert (-5) entryText 8192,
        .insert 100 entryText 0, .delete (-5)]) := by
  refine (myTree_refines_map_iff plainRoutines (fun _ => ⟨0, []⟩) _ ?_ ?_).mpr ?_
  · simp [TreeOp.Fits, entryText, Text.strlen, sizeofData]
  · decide
  · change Granted (fun _ => none) _
    have nothing : Granted (fun key => recordStep key (recorded [.insert 100 entryText 4096,
        .insert (-5) entryText 8192, .insert 100 entryText 0] key) (.delete (-5))) [] :=
      fun before _ _ _ _ shape => by simp at shape
    simp only [granted_cons]
    exact ⟨by simp, by simp, by simp [recordStep], by simp, nothing⟩

theorem insertNode_follows_null :
    (TreeOp.insert 100 entryText 0).Fits ∧
      run (treeStep plainRoutines) (.empty fun _ => ⟨0, []⟩) [.insert 100 entryText 0] = none :=
  ⟨by simp [TreeOp.Fits, entryText, Text.strlen, sizeofData], rfl⟩

end LearnK.RbTree
