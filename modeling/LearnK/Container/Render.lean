import LearnK.Container.Sequence
import LearnK.Lib.Decimal
import LearnK.Lib.Printf

/-! `to_string` of `list/container.c`, which renders a ring into a buffer of `PATH_MAX` bytes.  Only
the numbers go through `snprintf` with the room that is left; brackets, commas and the last NUL are
stored wherever the pointer has got to. -/

namespace LearnK.Container

open FaultM LinkedRing ListMemory Function CInt Decimal Printf ByteMemory

def pathMax : Nat := 4096

/-- `ptr += snprintf(ptr, (buffer + PATH_MAX) - ptr, "%d", value)`. -/
def putNumber (value : Word) (ptr : Output) : Output :=
  let (after, written) := ptr.snprintf (toU64 (pathMax - ptr.cursor)) (signed value.toInt)
  { after with cursor := ptr.cursor + written }

def putElement (isFirst : Bool) (value : Word) (ptr : Output) : Output :=
  putNumber value (if isFirst then ptr else ptr.putc 44)

section Source

variable {m : Type → Type} [Monad m] [ListMemory m]

def toStringLoop (head : Addr) : Nat → Addr → Output → m Output
  | 0, _, out => do
      fault .diverges
      pure out
  | fuel + 1, pos, out => do
      if pos = head then pure out
      else do
        let prev ← readPrev pos
        let value ← readWord pos
        let next ← readNext pos
        toStringLoop head fuel next (putElement (prev == head) value out)

/-- `kmalloc` is what the new buffer holds, or nothing for NULL. -/
def toString (head : Addr) (fuel : Nat) (kmalloc : Option (Int → UInt8)) : m (Option Output) :=
  match kmalloc with
  | none => pure none
  | some memory => do
      let pos ← readNext head
      let out ← toStringLoop head fuel pos (Output.putc ⟨memory, 0, []⟩ 91)
      let closed := out.putc 93
      pure (some (closed.store closed.cursor 0))

end Source

def putElements : Bool → List Word → Output → Output
  | _, [], out => out
  | isFirst, value :: rest, out => putElements false rest (putElement isFirst value out)

def rendered (memory : Int → UInt8) (values : List Word) : Output :=
  let closed := (putElements true values (Output.putc ⟨memory, 0, []⟩ 91)).putc 93
  closed.store closed.cursor 0

theorem Holds.prev_first {heap : Heap} {l node : Addr} {first rest : List Addr}
    (holds : Holds heap l (first ++ node :: rest)) : (heap.prev node == l) = first.isEmpty := by
  have link : heap.prev node = first.getLastD l := holds.ring.link_across.2
  rw [link]
  cases first with
  | nil => simp
  | cons other others =>
      have distinct := holds.ring.nodup
      have inside : (other :: others).getLastD l ∈ other :: others := by
        rw [List.getLastD_cons, ← List.getLast_eq_getLastD (List.cons_ne_nil other others)]
        exact List.getLast_mem _
      have apart : (other :: others).getLastD l ≠ l := by
        intro same
        rw [same] at inside
        exact (List.nodup_cons.mp distinct).1 (List.mem_append_left _ inside)
      simpa using apart

theorem Holds.toStringLoop_run {heap : Heap} {l : Addr} {first rest : List Addr} {fuel : Nat}
    (holds : Holds heap l (first ++ rest)) (enough : rest.length < fuel) (out : Output) :
    (toStringLoop l fuel (rest.headD l) out : CellM Output) heap =
      .ok (putElements first.isEmpty (rest.map heap.word) out, heap) := by
  induction rest generalizing first fuel out with
  | nil =>
      obtain ⟨more, rfl⟩ : ∃ more, fuel = more + 1 := ⟨fuel - 1, by simp at enough; omega⟩
      simp [toStringLoop, putElements, pure_apply]
  | cons node tail ih =>
      rw [List.length_cons] at enough
      obtain ⟨more, rfl⟩ : ∃ more, fuel = more + 1 := ⟨fuel - 1, by omega⟩
      obtain ⟨live, different, link⟩ := holds.next_node
      have onwards : Holds heap l ((first ++ [node]) ++ tail) := by simpa using holds
      rw [toStringLoop, List.headD_cons, if_neg different, bind_apply, readPrev_run live]
      simp only
      rw [bind_apply, readWord_run live]
      simp only
      rw [bind_apply, readNext_run live, link]
      simp only
      have later : (first ++ [node]).isEmpty = false := by cases first <;> rfl
      rw [ih onwards (by omega), holds.prev_first, later, List.map_cons, putElements]

theorem Holds.toString_run {heap : Heap} {l : Addr} {nodes : List Addr} {fuel : Nat}
    (holds : Holds heap l nodes) (enough : nodes.length < fuel) (memory : Int → UInt8) :
    (toString l fuel (some memory) : CellM (Option Output)) heap =
      .ok (some (rendered memory (nodes.map heap.word)), heap) := by
  have whole : Holds heap l ([] ++ nodes) := holds
  have link : heap.next l = nodes.headD l := whole.ring.link_across.1
  simp only [toString]
  rw [bind_apply, readNext_run holds.headLive, link]
  simp only
  rw [bind_apply, whole.toStringLoop_run enough]
  rfl

def elementText (isFirst : Bool) (value : Word) : List UInt8 :=
  if isFirst then signed value.toInt else 44 :: signed value.toInt

def elementsText : Bool → List Word → List UInt8
  | _, [] => []
  | isFirst, value :: rest => elementText isFirst value ++ elementsText false rest

theorem elementsText_false (values : List Word) :
    elementsText false values =
      (values.map BitVec.toInt).flatMap fun value => 44 :: signed value := by
  induction values with
  | nil => rfl
  | cons value rest ih =>
      rw [elementsText, ih, List.map_cons, List.flatMap_cons]
      rfl

theorem render_eq (values : List Word) :
    render (values.map BitVec.toInt) = 91 :: (elementsText true values ++ [93]) := by
  cases values with
  | nil => rfl
  | cons value rest =>
      rw [render, List.map_cons, intercalate_cons, elementsText, elementsText_false]
      rfl

theorem signed_word_length (value : Word) : (signed value.toInt).length ≤ 11 :=
  signed_length_le value.le_toInt value.toInt_lt

section Exact

variable {out : Output} {text : List UInt8} {isFirst : Bool}

theorem putNumber_exact {value : Word} (written : out.Written text) (inside : out.Inside pathMax)
    (room : text.length + (signed value.toInt).length < pathMax) :
    (putNumber value out).Written (text ++ signed value.toInt) ∧
      (putNumber value out).Inside pathMax := by
  have start := written.cursor
  have size : toU64 (pathMax - out.cursor) = pathMax - out.cursor :=
    toU64_of_range (by omega) (by unfold pathMax; omega)
  simp only [putNumber, size]
  exact ⟨written.snprintf room (by decide), inside.snprintf (by omega) (by omega)⟩

theorem putElement_exact {value : Word} (written : out.Written text) (inside : out.Inside pathMax)
    (room : text.length + (elementText isFirst value).length < pathMax) :
    (putElement isFirst value out).Written (text ++ elementText isFirst value) ∧
      (putElement isFirst value out).Inside pathMax := by
  cases isFirst with
  | true => exact putNumber_exact written inside room
  | false =>
      have start := written.cursor
      have length : (elementText false value).length = (signed value.toInt).length + 1 := rfl
      have comma := inside.putc (by omega) (by omega) 44
      have left : (text ++ [44]).length + (signed value.toInt).length < pathMax := by
        rw [List.length_append, List.length_singleton]
        omega
      have onwards := putNumber_exact (written.putc 44) comma left
      rw [List.append_assoc] at onwards
      exact onwards

theorem putElements_exact {values : List Word} (written : out.Written text)
    (inside : out.Inside pathMax)
    (room : text.length + (elementsText isFirst values).length < pathMax) :
    (putElements isFirst values out).Written (text ++ elementsText isFirst values) ∧
      (putElements isFirst values out).Inside pathMax := by
  induction values generalizing out text isFirst with
  | nil => exact ⟨by simpa [elementsText, putElements] using written, inside⟩
  | cons value rest ih =>
      rw [elementsText, List.length_append] at room
      have here : text.length + (elementText isFirst value).length < pathMax := by omega
      obtain ⟨next, stays⟩ := putElement_exact written inside here
      have left : (text ++ elementText isFirst value).length + (elementsText false rest).length <
          pathMax := by
        rw [List.length_append]
        omega
      rw [elementsText, ← List.append_assoc]
      exact ih next stays left

theorem rendered_exact {values : List Word} (memory : Int → UInt8)
    (short : (render (values.map BitVec.toInt)).length ≤ pathMax - 1) :
    (rendered memory values).Inside pathMax ∧
      slice (rendered memory values).bytes 0 ((render (values.map BitVec.toInt)).length + 1) =
        render (values.map BitVec.toInt) ++ [0] := by
  have limit : pathMax = 4096 := rfl
  have empty : (⟨memory, 0, []⟩ : Output).Written [] := ⟨rfl, rfl⟩
  have nothing : (⟨memory, 0, []⟩ : Output).Inside pathMax := by
    intro index member
    simp at member
  have length : (render (values.map BitVec.toInt)).length = (elementsText true values).length + 2 := by
    rw [render_eq]
    simp
  have opened := nothing.putc (Int.le_refl 0) (Int.natCast_pos.mpr (by decide)) 91
  have room : ([] ++ [91] : List UInt8).length + (elementsText true values).length < pathMax := by
    simp only [List.nil_append, List.length_singleton]
    omega
  obtain ⟨filled, filledInside⟩ := putElements_exact (empty.putc 91) opened room
  have start := filled.cursor
  simp only [List.nil_append, List.singleton_append, List.length_cons] at start
  have closed := filled.putc 93
  have closedInside := filledInside.putc (by omega) (by omega) 93
  have text : [] ++ [91] ++ elementsText true values ++ [93] = render (values.map BitVec.toInt) := by
    rw [render_eq]
    rfl
  rw [text] at closed
  have stop := closed.cursor
  exact ⟨closedInside.store (by omega) (by omega) 0, closed.storeAll [0]⟩

end Exact

section Overrun

variable {out : Output} {isFirst : Bool}

def Reached (out : Output) (length : Nat) : Prop := out.cursor = length ∨ pathMax < out.cursor

theorem putNumber_cursor (value : Word) (out : Output) :
    out.cursor ≤ (putNumber value out).cursor := by
  have short := signed_word_length value
  simp only [putNumber, Output.snprintf, Output.printedLength]
  split
  · omega
  · unfold toS32
    omega

theorem putNumber_reached {value : Word} {length : Nat} (reached : Reached out length) :
    Reached (putNumber value out) (length + (signed value.toInt).length) := by
  have limit : pathMax = 4096 := rfl
  have onwards := putNumber_cursor value out
  have short := signed_word_length value
  by_cases beyond : pathMax < out.cursor
  · -- whatever the wrapped size is, the return value does not move the pointer back
    exact .inr (by omega)
  · have start := reached.resolve_right beyond
    have size : toU64 (pathMax - out.cursor) = pathMax - out.cursor :=
      toU64_of_range (by omega) (by omega)
    have fits : ¬(pathMax - out.cursor > Output.intMax) := by
      unfold Output.intMax
      omega
    refine .inl ?_
    simp only [putNumber, Output.snprintf, size, Output.printedLength, if_neg fits]
    unfold toS32
    omega

theorem putElement_reached {value : Word} {length : Nat} (reached : Reached out length) :
    Reached (putElement isFirst value out) (length + (elementText isFirst value).length) := by
  cases isFirst with
  | true => exact putNumber_reached reached
  | false =>
      have comma : Reached (out.putc 44) (length + 1) := by
        have advanced : (out.putc 44).cursor = out.cursor + 1 := rfl
        unfold Reached at reached ⊢
        omega
      have text : (elementText false value).length = 1 + (signed value.toInt).length :=
        Nat.add_comm _ _
      rw [text, ← Nat.add_assoc]
      exact putNumber_reached comma

theorem putElements_reached {values : List Word} {length : Nat} (reached : Reached out length) :
    Reached (putElements isFirst values out) (length + (elementsText isFirst values).length) := by
  induction values generalizing out length isFirst with
  | nil => exact reached
  | cons value rest ih =>
      rw [elementsText, List.length_append, ← Nat.add_assoc]
      exact ih (putElement_reached reached)

theorem rendered_inside_iff (memory : Int → UInt8) (values : List Word) :
    (rendered memory values).Inside pathMax ↔
      (render (values.map BitVec.toInt)).length ≤ pathMax - 1 := by
  refine ⟨?_, fun short => (rendered_exact memory short).1⟩
  intro inside
  have limit : pathMax = 4096 := rfl
  have opened : Reached (Output.putc ⟨memory, 0, []⟩ 91) 1 := .inl rfl
  have reached := @putElements_reached _ true values 1 opened
  have last : (putElements true values (Output.putc ⟨memory, 0, []⟩ 91)).cursor + 1 < pathMax :=
    (inside _ List.mem_cons_self).2
  rw [render_eq, List.length_cons, List.length_append, List.length_singleton]
  unfold Reached at reached
  omega

end Overrun

theorem free_after {heap : Heap} {bound : Nat} (few : bound < 4294967296)
    (below : ∀ addr, heap.live addr = true → addr.toNat ≤ 4096 + bound) :
    heap.Free (UInt64.ofNat (4097 + bound)) := by
  have place : (UInt64.ofNat (4097 + bound)).toNat = 4097 + bound := by
    rw [UInt64.toNat_ofNat']
    omega
  have apart (addr : Addr) (far : addr.toNat ≠ 4097 + bound) : UInt64.ofNat (4097 + bound) ≠ addr := by
    rintro rfl
    exact far place
  refine ⟨?_, apart _ ?_, apart _ ?_, apart _ ?_⟩
  · by_contra live
    have near := below _ (Bool.not_eq_false _ ▸ live)
    omega
  · rw [show (0 : Addr).toNat = 0 from rfl]
    omega
  · rw [show listPoison1.toNat = 16045481047390945536 from rfl]
    omega
  · rw [show listPoison2.toNat = 16045481047390945570 from rfl]
    omega

theorem exists_ring (values : List Word) (few : values.length < 4294967296) :
    ∃ heap nodes, Holds heap 4096 nodes ∧ nodes.map heap.word = values ∧
      ∀ addr, heap.live addr = true → addr.toNat ≤ 4096 + values.length := by
  induction values using List.reverseRecOn with
  | nil =>
      refine ⟨vacantHeap.make 4096 0, [], Holds.fresh ⟨rfl, rfl, rfl⟩ 0 (by decide), rfl, ?_⟩
      intro addr live
      by_cases head : addr = 4096
      · rw [head]
        decide
      · rw [Heap.make_live, update_of_ne head] at live
        exact absurd live Bool.false_ne_true
  | append_singleton values value ih =>
      rw [List.length_append, List.length_singleton] at few
      obtain ⟨heap, nodes, holds, stored, below⟩ := ih (by omega)
      have free := free_after (by omega) below
      obtain ⟨after, -, holdsAfter, word, live⟩ := holds.pushBack value free
      refine ⟨after, _, holdsAfter, ?_, ?_⟩
      · have others : nodes.map after.word = nodes.map heap.word := by
          refine holds.map_word_fresh free ?_
          intro addr notHead notNode
          rw [word, update_of_ne notHead, update_of_ne notNode]
        have different : UInt64.ofNat (4097 + values.length) ≠ 4096 := by
          intro same
          rw [same] at free
          exact holds.free_notMem free List.mem_cons_self
        rw [List.map_append, others, stored, List.map_singleton, word, update_of_ne different,
          update_self]
      · intro addr alive
        rw [List.length_append, List.length_singleton]
        by_cases new : addr = UInt64.ofNat (4097 + values.length)
        · rw [new, UInt64.toNat_ofNat']
          omega
        · rw [live, update_of_ne new] at alive
          have old := below addr alive
          omega

/-- `to_string` stays inside its buffer exactly when the rendering leaves room for its NUL. -/
theorem toString_inside_iff (heap : Heap) (head : Addr) (nodes : List Addr) (fuel : Nat)
    (memory : Int → UInt8) (holds : Holds heap head nodes) (enough : nodes.length < fuel) :
    ∃ out, (toString head fuel (some memory) : CellM (Option Output)) heap =
        .ok (some out, heap) ∧
      (out.Inside pathMax ↔
        (render ((nodes.map heap.word).map BitVec.toInt)).length ≤ pathMax - 1) :=
  ⟨_, holds.toString_run enough memory, rendered_inside_iff memory _⟩

theorem toString_inside_iff_threeNumbers : ∃ heap nodes out,
    Holds heap 4096 nodes ∧ nodes.map heap.word = [-2147483648, 0, 7] ∧
      (toString 4096 4 (some fun _ => 0) : CellM (Option Output)) heap = .ok (some out, heap) ∧
      out.Inside pathMax := by
  obtain ⟨heap, nodes, holds, values, -⟩ := exists_ring [-2147483648, 0, 7] (by decide)
  have length : nodes.length = 3 := by
    rw [← List.length_map heap.word, values]
    rfl
  obtain ⟨out, ran, inside⟩ := toString_inside_iff heap 4096 nodes 4 (fun _ => 0) holds (by omega)
  refine ⟨heap, nodes, out, holds, values, ran, inside.mpr ?_⟩
  rw [values]
  decide +kernel

theorem render_ones_length (count : Nat) :
    (render ((List.replicate (count + 1) (1 : Word)).map BitVec.toInt)).length = 2 * count + 3 := by
  have one : (signed (BitVec.toInt (1 : Word))).length = 1 := by decide
  have commas : ∀ rest, (elementsText false (List.replicate rest (1 : Word))).length = 2 * rest := by
    intro rest
    induction rest with
    | zero => rfl
    | succ rest ih =>
        have text : (elementText false 1).length = 2 := by rw [elementText]; exact congrArg (· + 1) one
        rw [List.replicate_succ, elementsText, List.length_append, ih, text]
        omega
  have text : (elementText true 1).length = 1 := one
  rw [render_eq, List.replicate_succ, elementsText, List.length_cons, List.length_append,
    List.length_append, commas, text, List.length_singleton]
  omega

theorem toString_leaves_buffer : ∃ heap nodes out,
    Holds heap 4096 nodes ∧ nodes.map heap.word = List.replicate 2048 1 ∧
      (toString 4096 2049 (some fun _ => 0) : CellM (Option Output)) heap = .ok (some out, heap) ∧
      ¬out.Inside pathMax := by
  obtain ⟨heap, nodes, holds, values, -⟩ := exists_ring (List.replicate 2048 1)
    (by rw [List.length_replicate]; omega)
  have length : nodes.length = 2048 := by
    rw [← List.length_map heap.word, values, List.length_replicate]
  refine ⟨heap, nodes, _, holds, values, holds.toString_run (by omega) _, ?_⟩
  rw [values, rendered_inside_iff, render_ones_length 2047]
  decide

/-- While the rendering fits, the buffer holds it and its NUL, reading it back gives the values, and
no other ring's string is the same. -/
theorem toString_faithful (heap : Heap) (head : Addr) (nodes : List Addr) (fuel : Nat)
    (memory : Int → UInt8) (holds : Holds heap head nodes) (enough : nodes.length < fuel)
    (short : (render ((nodes.map heap.word).map BitVec.toInt)).length ≤ pathMax - 1) :
    ∃ out, (toString head fuel (some memory) : CellM (Option Output)) heap =
        .ok (some out, heap) ∧
      out.Inside pathMax ∧
      slice out.bytes 0 ((render ((nodes.map heap.word).map BitVec.toInt)).length + 1) =
        render ((nodes.map heap.word).map BitVec.toInt) ++ [0] ∧
      out.cString pathMax = some (render ((nodes.map heap.word).map BitVec.toInt)) ∧
      readList (render ((nodes.map heap.word).map BitVec.toInt)) =
        (nodes.map heap.word).map BitVec.toInt ∧
      ∀ heap' head' nodes' fuel' memory' out', Holds heap' head' nodes' → nodes'.length < fuel' →
        (render ((nodes'.map heap'.word).map BitVec.toInt)).length ≤ pathMax - 1 →
        (toString head' fuel' (some memory') : CellM (Option Output)) heap' =
          .ok (some out', heap') →
        out'.cString pathMax = out.cString pathMax → nodes'.map heap'.word = nodes.map heap.word := by
  have text {values : List Word} {memory : Int → UInt8}
      (fits : (render (values.map BitVec.toInt)).length ≤ pathMax - 1) :
      (rendered memory values).cString pathMax = some (render (values.map BitVec.toInt)) := by
    have room : (render (values.map BitVec.toInt)).length < pathMax :=
      Nat.lt_of_le_of_lt fits (by decide)
    exact Output.cString_eq (nul_notMem_render _) room (rendered_exact memory fits).2
  obtain ⟨inside, held⟩ := rendered_exact memory short
  refine ⟨_, holds.toString_run enough memory, inside, held, text short, readList_render _, ?_⟩
  intro heap' head' nodes' fuel' memory' out' holds' enough' short' ran same
  rw [holds'.toString_run enough' memory', Except.ok.injEq, Prod.mk.injEq, Option.some.injEq] at ran
  rw [← ran.1, text short', text short, Option.some.injEq] at same
  exact List.map_injective_iff.mpr (fun _ _ => BitVec.eq_of_toInt_eq) (render_injective same)

theorem toString_faithful_threeNumbers : ∃ heap nodes out,
    Holds heap 4096 nodes ∧ nodes.map heap.word = [-2147483648, 0, 7] ∧
      (toString 4096 4 (some fun _ => 0) : CellM (Option Output)) heap = .ok (some out, heap) ∧
      out.cString pathMax =
        some [91, 45, 50, 49, 52, 55, 52, 56, 51, 54, 52, 56, 44, 48, 44, 55, 93] := by
  obtain ⟨heap, nodes, holds, values, -⟩ := exists_ring [-2147483648, 0, 7] (by decide)
  have length : nodes.length = 3 := by
    rw [← List.length_map heap.word, values]
    rfl
  have short : (render ((nodes.map heap.word).map BitVec.toInt)).length ≤ pathMax - 1 := by
    rw [values]
    decide +kernel
  obtain ⟨out, ran, -, -, text, -⟩ :=
    toString_faithful heap 4096 nodes 4 (fun _ => 0) holds (by omega) short
  refine ⟨heap, nodes, out, holds, values, ran, text.trans ?_⟩
  rw [values]
  decide +kernel

end LearnK.Container
