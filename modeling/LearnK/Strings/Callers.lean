import LearnK.Strings.Lifetimes

/-! Everything that a caller can do with any number of strings in memory, against plain texts: made,
joined, looked at and freed in any order. -/

namespace LearnK.Strings

open CInt CString DataType
open Container (Addr Block ByteHeap ByteM)

theorem Caller.after_run {α : Type} {caller : Caller} {action : ByteM α}
    {record : α → Client Answer Addr → Client Answer Addr} {value : α} {heap : ByteHeap}
    (ran : action caller.heap = .ok (value, heap)) :
    caller.after action record = .ok ⟨heap, record value caller.client⟩ := by
  rw [Caller.after, ran]

theorem Caller.after_granted {α : Type} {caller : Caller} {action : ByteM α}
    {record : α → Client Answer Addr → Client Answer Addr}
    (granted : caller.after action record ≠ .error .badPlacement) :
    action caller.heap ≠ .error .badPlacement := by
  intro refused
  rw [Caller.after, refused] at granted
  exact granted rfl

/-- `owner` tells of each block which string it belongs to. -/
def Backed (owner : Nat → Option Nat) (heap : ByteHeap) (self : Nat) (view : Addr) (text : List UInt8) :
    Prop :=
  ∃ base cap, StoredAt heap view base cap text ∧ owner view.toNat = some self ∧
    owner base.toNat = some self

structure Backs (owner : Nat → Option Nat) (caller : Caller) (client' : Client Answer (List UInt8)) :
    Prop where
  spaced : Spaced caller.heap.blocks
  answers : caller.client.answers = client'.answers
  length : caller.client.handles.length = client'.handles.length
  backed : ∀ (self : Nat) handle', client'.handles[self]? = some handle' →
    ∃ handle, caller.client.handles[self]? = some handle ∧
      Handle.Matches (Backed owner caller.heap self) handle handle'

/-- What a call on one string may do: touch the blocks of that string and take new ones. -/
structure Touches (owner owner' : Nat → Option Nat) (index : Nat) (heap after : ByteHeap) : Prop where
  spaced : Spaced after.blocks
  frame : Frame (fun addr => owner addr = some index ∨ Fresh heap addr) heap after
  same : ∀ block ∈ heap.blocks, owner' block.base = owner block.base

section

variable {owner owner' : Nat → Option Nat} {heap after : ByteHeap} {self other : Nat}

theorem Touches.ofFresh (frame : Frame (Fresh heap) heap after) (spaced : Spaced after.blocks)
    (same : ∀ block ∈ heap.blocks, owner' block.base = owner block.base) :
    Touches owner owner' self heap after :=
  ⟨spaced, frame.mono fun _ => .inr, same⟩

theorem Touches.notMine {block : Block} (member : block ∈ heap.blocks)
    (notOwn : owner block.base ≠ some self) :
    ¬(owner block.base = some self ∨ Fresh heap block.base) := by
  rintro (own | fresh)
  · exact notOwn own
  · exact fresh block member rfl

theorem Backed.touched {view : Addr} {text : List UInt8} (backed : Backed owner heap other view text)
    (touches : Touches owner owner' self heap after) (different : other ≠ self) :
    Backed owner' after other view text := by
  obtain ⟨base, cap, stored, ownView, ownBase⟩ := backed
  have apart : some other ≠ some self := fun same => different (Option.some.inj same)
  refine ⟨base, cap, stored.frame touches.frame ?_ ?_, ?_, ?_⟩
  · exact Touches.notMine stored.viewBlock (by rw [ownView]; exact apart)
  · exact Touches.notMine stored.block (by rw [ownBase]; exact apart)
  · rw [← ownView]
    exact touches.same _ stored.viewBlock
  · rw [← ownBase]
    exact touches.same _ stored.block

variable {caller : Caller} {client' : Client Answer (List UInt8)}

theorem Backs.others (backs : Backs owner caller client')
    (touches : Touches owner owner' self caller.heap after) {handle' : Handle (List UInt8)}
    (found : client'.handles[other]? = some handle') (different : other ≠ self) :
    ∃ handle, caller.client.handles[other]? = some handle ∧
      Handle.Matches (Backed owner' after other) handle handle' := by
  obtain ⟨handle, same, matching⟩ := backs.backed other handle' found
  refine ⟨handle, same, ?_⟩
  cases matching with
  | null => exact .null
  | live backed => exact .live (backed.touched touches different)
  | freed => exact .freed

theorem Backs.live (backs : Backs owner caller client') {text : List UInt8}
    (found : client'.handles[self]? = some (.live text)) :
    ∃ view, caller.client.handles[self]? = some (.live view) ∧
      Backed owner caller.heap self view text := by
  obtain ⟨handle, same, matching⟩ := backs.backed self _ found
  cases matching with
  | live backed => exact ⟨_, same, backed⟩

theorem Backs.put (backs : Backs owner caller client')
    (touches : Touches owner owner' self caller.heap after) {handle : Handle Addr}
    {handle' : Handle (List UInt8)} (here : Handle.Matches (Backed owner' after self) handle handle') :
    Backs owner' ⟨after, caller.client.put self handle⟩ (client'.put self handle') := by
  refine ⟨touches.spaced, backs.answers, ?_, fun index entry' found => ?_⟩
  · simp only [Client.put, List.length_set]
    exact backs.length
  · simp only [Client.put] at found ⊢
    by_cases same : self = index
    · subst same
      have inside : self < client'.handles.length := by
        have bound := (List.getElem?_eq_some_iff.mp found).1
        rwa [List.length_set] at bound
      rw [List.getElem?_set_self inside] at found
      obtain rfl := Option.some.inj found
      exact ⟨handle, List.getElem?_set_self (backs.length ▸ inside), here⟩
    · rw [List.getElem?_set_ne same] at found ⊢
      exact backs.others touches found (Ne.symm same)

theorem Backs.append (backs : Backs owner caller client')
    (touches : Touches owner owner' client'.handles.length caller.heap after) {handle : Handle Addr}
    {handle' : Handle (List UInt8)}
    (here : Handle.Matches (Backed owner' after client'.handles.length) handle handle') :
    Backs owner' ⟨after, { caller.client with handles := caller.client.handles ++ [handle] }⟩
      { client' with handles := client'.handles ++ [handle'] } := by
  refine ⟨touches.spaced, backs.answers, ?_, fun index entry' found => ?_⟩
  · simp only [List.length_append, List.length_singleton, backs.length]
  · simp only at found ⊢
    by_cases last : index = client'.handles.length
    · subst last
      rw [List.getElem?_concat_length] at found
      obtain rfl := Option.some.inj found
      exact ⟨handle, by rw [← backs.length, List.getElem?_concat_length], here⟩
    · have inside : index < client'.handles.length := by
        have bound := (List.getElem?_eq_some_iff.mp found).1
        rw [List.length_append, List.length_singleton] at bound
        omega
      rw [List.getElem?_append_left inside] at found
      rw [List.getElem?_append_left (backs.length ▸ inside)]
      exact backs.others touches found last

theorem Backs.answer (backs : Backs owner caller client')
    (touches : Touches owner owner' client'.handles.length caller.heap after) (answer : Answer) :
    Backs owner' ⟨after, { caller.client with answers := caller.client.answers ++ [answer] }⟩
      { client' with answers := client'.answers ++ [answer] } := by
  refine ⟨touches.spaced, congrArg (· ++ [answer]) backs.answers, backs.length,
    fun index entry' found => ?_⟩
  have inside := (List.getElem?_eq_some_iff.mp found).1
  exact backs.others touches found (Nat.ne_of_lt inside)

theorem put_same {Value : Type} {client : Client Answer Value} {handle : Handle Value}
    (found : client.handles[self]? = some handle) : client.put self handle = client := by
  obtain ⟨inside, same⟩ := List.getElem?_eq_some_iff.mp found
  rw [Client.put, ← same, List.set_getElem_self]

def Untouched (owner : Nat → Option Nat) (first heap : ByteHeap) : Prop :=
  ∀ block ∈ first.blocks, owner block.base = none ∧ block ∈ heap.blocks ∧
    ∀ addr, block.base ≤ addr → addr < block.base + reach block.size → heap.mem addr = first.mem addr

theorem Untouched.touched {first : ByteHeap} (untouched : Untouched owner first heap)
    (touches : Touches owner owner' self heap after) : Untouched owner' first after := by
  intro block member
  obtain ⟨free, present, bytes⟩ := untouched block member
  have notOwn : owner block.base ≠ some self := by simp [free]
  have other := Touches.notMine present notOwn
  refine ⟨(touches.same block present).trans free, touches.frame.blocks block present other, ?_⟩
  intro addr low high
  rw [touches.frame.bytes block present other addr low high, bytes addr low high]

def Follows (owner : Nat → Option Nat) (caller : Caller) (call : PlacedCall)
    (next' : Client Answer (List UInt8)) : Prop :=
  ∃ next owner' index, placedStep caller call = .ok next ∧ Backs owner' next next' ∧
    Touches owner owner' index caller.heap next.heap

def given (owner : Nat → Option Nat) (self : Nat) (first second : Addr) : Nat → Option Nat := fun addr =>
  if addr = first.toNat ∨ addr = second.toNat then some self else owner addr

theorem given_same {first second : Addr}
    (firstOwn : Fresh heap first.toNat ∨ owner first.toNat = some self)
    (secondOwn : Fresh heap second.toNat ∨ owner second.toNat = some self) :
    ∀ block ∈ heap.blocks, given owner self first second block.base = owner block.base := by
  intro block member
  rw [given]
  split
  · rename_i named
    rcases named with here | here
    · rw [here]
      exact (firstOwn.resolve_left fun fresh => fresh block member here).symm
    · rw [here]
      exact (secondOwn.resolve_left fun fresh => fresh block member here).symm
  · rfl

variable {client' next' : Client Answer (List UInt8)}

theorem Backs.makes (backs : Backs owner caller client') {new : NewCap} {view buffer : Addr}
    (stepped : texts.step client' (.make new) = some next')
    (granted : placedStep caller (.make new view buffer) ≠ .error .badPlacement) :
    Follows owner caller (.make new view buffer) next' := by
  rw [Operations.step] at stepped
  obtain ⟨made', allowed, rfl⟩ := Option.map_eq_some_iff.mp stepped
  have step : placedStep caller (.make new view buffer) =
      caller.after (stringNewCapAt new view buffer) fun s client =>
        { client with handles := client.handles ++ [.made (if s = 0 then none else some s)] } := by
    rw [placedStep]
  rw [step] at granted
  have allocated := Caller.after_granted granted
  obtain ⟨small, ⟨rfl, fails⟩ | ⟨rfl, room, viewGiven, garbage, bufferGiven⟩⟩ := texts_make_cases allowed
  · obtain ⟨after, ran, blocks, frame⟩ := stringNewCapAt_null small fails allocated
    have touches : Touches owner owner client'.handles.length caller.heap after :=
      .ofFresh frame (blocks ▸ backs.spaced) fun _ _ => rfl
    exact ⟨_, owner, _, step.trans (Caller.after_run ran), backs.append touches .null, touches⟩
  · obtain ⟨after, ran, stored, spaced, frame, freshView, freshBuffer, notNull⟩ :=
      stringNewCapAt_run backs.spaced small room viewGiven bufferGiven allocated
    have touches : Touches owner (given owner client'.handles.length view buffer) client'.handles.length
        caller.heap after := by
      refine .ofFresh (frame.mono ?_) spaced (given_same (.inl freshView) (.inl freshBuffer))
      rintro addr (rfl | rfl)
      · exact freshView
      · exact freshBuffer
    have backed : Backed (given owner client'.handles.length view buffer) after
        client'.handles.length view new.str.bytes :=
      ⟨buffer, _, stored, if_pos (.inl rfl), if_pos (.inr rfl)⟩
    refine ⟨_, _, _, step.trans (Caller.after_run ran), backs.append touches ?_, touches⟩
    rw [if_neg notNull]
    exact .live backed

theorem Backs.changes (backs : Backs owner caller client') {joined : Joined} {new : Addr}
    (stepped : texts.step client' (.change self joined) = some next')
    (granted : placedStep caller (.change self joined new) ≠ .error .badPlacement) :
    Follows owner caller (.change self joined new) next' := by
  simp only [Operations.step] at stepped
  split at stepped
  · rename_i text found
    obtain ⟨text', allowed, rfl⟩ := Option.map_eq_some_iff.mp stepped
    obtain ⟨total, rfl, garbage, answered⟩ := texts_change_cases allowed
    obtain ⟨view, same, base, cap, stored, ownView, ownBase⟩ := backs.live found
    have step : placedStep caller (.change self joined new) =
        caller.after (stringJoinAt 4097 joined new view) fun _ client => client := by
      rw [placedStep, same]
    rw [step] at granted
    obtain ⟨after, base', cap', ran, stored', spaced, frame, moved⟩ :=
      stringJoinAt_run stored backs.spaced answered total (Caller.after_granted granted)
    have touches : Touches owner (given owner self view base') self caller.heap after := by
      refine ⟨spaced, frame.mono ?_, given_same (.inr ownView) ?_⟩
      · rintro addr ((rfl | rfl) | rfl)
        · exact .inl ownView
        · exact .inl ownBase
        · rcases moved with rfl | fresh
          · exact .inl ownBase
          · exact .inr fresh
      · rcases moved with rfl | fresh
        · exact .inr ownBase
        · exact .inl fresh
    have backed : Backed (given owner self view base') after self view (text ++ joined.str.bytes) :=
      ⟨base', cap', stored', if_pos (.inl rfl), if_pos (.inr rfl)⟩
    have put := backs.put touches (.live backed)
    rw [put_same same] at put
    exact ⟨_, _, self, step.trans (Caller.after_run ran), put, touches⟩
  · simp at stepped

theorem Backs.asks (backs : Backs owner caller client') {query : Query} {copy : Addr}
    (stepped : texts.step client' (.ask self query) = some next')
    (granted : placedStep caller (.ask self query copy) ≠ .error .badPlacement) :
    Follows owner caller (.ask self query copy) next' := by
  simp only [Operations.step] at stepped
  split at stepped
  · rename_i text found
    obtain ⟨answer, allowed, rfl⟩ := Option.map_eq_some_iff.mp stepped
    obtain ⟨small, rfl⟩ := texts_ask_cases allowed
    obtain ⟨view, same, base, cap, stored, -, -⟩ := backs.live found
    have step : placedStep caller (.ask self query copy) =
        caller.after (stringQueryAt query copy view) fun answer client =>
          { client with answers := client.answers ++ [answer] } := by
      rw [placedStep, same]
    rw [step] at granted
    obtain ⟨after, ran, blocks, frame⟩ :=
      stringQueryAt_run stored backs.spaced small (Caller.after_granted granted)
    have touches : Touches owner owner client'.handles.length caller.heap after :=
      .ofFresh frame (blocks ▸ backs.spaced) fun _ _ => rfl
    exact ⟨_, owner, _, step.trans (Caller.after_run ran), backs.answer touches _, touches⟩
  · simp at stepped

theorem Backs.frees (backs : Backs owner caller client')
    (stepped : texts.step client' (.free self) = some next') :
    Follows owner caller (.free self) next' := by
  simp only [Operations.step] at stepped
  split at stepped
  · rename_i found
    obtain rfl := Option.some.inj stepped
    obtain ⟨handle, same, matching⟩ := backs.backed self _ found
    cases matching with
    | null =>
        have step : placedStep caller (.free self) = .ok caller := by
          rw [placedStep, same]
        have touches : Touches owner owner self caller.heap caller.heap :=
          ⟨backs.spaced, Frame.refl _ _, fun _ _ => rfl⟩
        exact ⟨caller, owner, self, step, backs, touches⟩
  · rename_i text found
    obtain rfl := Option.some.inj stepped
    obtain ⟨view, same, base, cap, stored, ownView, ownBase⟩ := backs.live found
    have step : placedStep caller (.free self) =
        caller.after (stringFree view) fun _ client => client.put self .freed := by
      rw [placedStep, same]
    obtain ⟨after, ran, spaced, frame⟩ := stringFree_run stored backs.spaced
    have touches : Touches owner owner self caller.heap after := by
      refine ⟨spaced, frame.mono ?_, fun _ _ => rfl⟩
      rintro addr (rfl | rfl)
      · exact .inl ownView
      · exact .inl ownBase
    exact ⟨_, owner, self, step.trans (Caller.after_run ran), backs.put touches .freed, touches⟩
  · simp at stepped

theorem Backs.step (backs : Backs owner caller client') {call : PlacedCall}
    (stepped : texts.step client' call.call = some next')
    (granted : placedStep caller call ≠ .error .badPlacement) : Follows owner caller call next' := by
  cases call with
  | make new view buffer => exact backs.makes stepped granted
  | change self joined new => exact backs.changes stepped granted
  | ask self query copy => exact backs.asks stepped granted
  | free self => exact backs.frees stepped

theorem Backs.run (backs : Backs owner caller client') {first : ByteHeap}
    (untouched : Untouched owner first caller.heap) {calls : List PlacedCall}
    {final' : Client Answer (List UInt8)}
    (ran : StepMachine.run texts.step client' (calls.map PlacedCall.call) = some final')
    (granted : calls.foldlM placedStep caller ≠ .error .badPlacement) :
    ∃ final owner', calls.foldlM placedStep caller = .ok final ∧ Backs owner' final final' ∧
      Untouched owner' first final.heap := by
  induction calls generalizing owner caller client' with
  | nil =>
      obtain rfl := Option.some.inj ran
      exact ⟨caller, owner, rfl, backs, untouched⟩
  | cons call rest ih =>
      obtain ⟨middle', stepped, remaining⟩ := StepMachine.run_cons_some ran
      have here : placedStep caller call ≠ .error .badPlacement := by
        intro refused
        rw [List.foldlM_cons, refused] at granted
        exact granted rfl
      obtain ⟨middle, owner', index, took, between, touches⟩ := backs.step stepped here
      have onward : (call :: rest).foldlM placedStep caller = rest.foldlM placedStep middle := by
        rw [List.foldlM_cons, took]
        rfl
      rw [onward] at granted ⊢
      exact ih between (untouched.touched touches) remaining granted

end

/-- Whatever a caller does with any number of strings in memory, within what the texts allow: nothing
faults, every answer is the one that the text gives, and no block of anybody else is touched. -/
theorem strings_answer_as_texts (heap : ByteHeap) (spaced : Spaced heap.blocks) (calls : List PlacedCall)
    (final' : Client Answer (List UInt8))
    (ran : StepMachine.run texts.step ⟨[], []⟩ (calls.map PlacedCall.call) = some final')
    (granted : calls.foldlM placedStep ⟨heap, ⟨[], []⟩⟩ ≠ .error .badPlacement) :
    (∃ final, calls.foldlM placedStep ⟨heap, ⟨[], []⟩⟩ = .ok final ∧
      final.client.answers = final'.answers ∧
      (∀ (self : Nat) text, final'.handles[self]? = some (.live text) →
        ∃ view base cap, final.client.handles[self]? = some (.live view) ∧
          StoredAt final.heap view base cap text) ∧
      ∀ block ∈ heap.blocks, block ∈ final.heap.blocks ∧
        ∀ addr, block.base ≤ addr → addr < block.base + reach block.size →
          final.heap.mem addr = heap.mem addr) ∧
    ∃ values, StepMachine.run views.step ⟨[], []⟩ (calls.map PlacedCall.call) = some values ∧
      values.Matches StringView.HoldsText final' := by
  have begins : Backs (fun _ => none) ⟨heap, ⟨[], []⟩⟩ ⟨[], []⟩ :=
    ⟨spaced, rfl, rfl, fun self handle' found => by simp at found⟩
  have untouched : Untouched (fun _ => none) heap heap := fun block member =>
    ⟨rfl, member, fun _ _ _ => rfl⟩
  obtain ⟨final, owner, finished, backs, rest⟩ := begins.run untouched ran granted
  refine ⟨⟨final, finished, backs.answers, fun self text found => ?_,
    fun block member => (rest block member).2⟩, views_refine_texts.run ran⟩
  obtain ⟨view, same, base, cap, stored, -⟩ := backs.live found
  exact ⟨view, base, cap, same, stored⟩

theorem takeWhile_noNul (bytes : List UInt8) : ∀ byte ∈ bytes.takeWhile (· ≠ 0), byte ≠ 0 := by
  intro byte member
  simpa using List.mem_takeWhile_imp member

def literal (bytes : List UInt8) : Text := ⟨bytes.takeWhile (· ≠ 0), takeWhile_noNul bytes⟩

def helloWorld : List UInt8 :=
  [104, 101, 108, 108, 111, 32, 119, 111, 114, 108, 100, 44, 32, 116, 104, 105, 115, 32, 105, 115, 32,
    97, 32, 116, 101, 115, 116]

/-- What `__do_init` does with its string when it gets all the memory it asks for.  `krealloc` leaves
the buffer where it is until the last join. -/
def doInit (self : Nat) (fresh : Nat → UInt8) : List PlacedCall :=
  let a := literal [97]
  let bc := literal [98, 99]
  let exclamations := literal [33, 33]
  [.make ⟨true, some fresh, a, 2⟩ 4096 8192, .change self ⟨some fresh, bc⟩ 8192, .ask self .print 0,
    .change self ⟨some fresh, exclamations⟩ 8192, .ask self .len 0, .ask self (.char (some fresh)) 12288,
    .ask self (.hasPrefix a) 0, .ask self (.hasSuffix exclamations) 0,
    .change self ⟨some fresh, literal helloWorld⟩ 16384, .ask self .print 0, .ask self (.index bc) 0,
    .ask self (.lastIndex (literal [105, 115])) 0, .ask self (.hasSubstring bc) 0,
    .ask self (.substring (some fresh) 1 3) 8192, .free self]

def besideAnother : List PlacedCall :=
  .make ⟨true, some fun _ => 7, literal [120, 121], 3⟩ 4120 4144 :: doInit 1 (fun _ => 7) ++
    [.ask 0 .print 0]

def emptyHeap : ByteHeap := ⟨fun _ => 7, fun _ => true, [], [], []⟩

theorem strings_answer_as_texts_doInit :
    ∃ final, besideAnother.foldlM placedStep ⟨emptyHeap, ⟨[], []⟩⟩ = .ok final ∧
      final.client.answers = [.str [97, 98, 99], .int 5, .str [97, 98, 99, 33, 33], .bool true,
        .bool true, .str ([97, 98, 99, 33, 33] ++ helloWorld), .int 1, .int 23, .bool true, .str [98, 99],
        .str [120, 121]] := by
  obtain ⟨final', ran, answers⟩ := Option.map_eq_some_iff.mp (by decide +kernel :
    (StepMachine.run texts.step ⟨[], []⟩ (besideAnother.map PlacedCall.call)).map Client.answers =
      some [.str [97, 98, 99], .int 5, .str [97, 98, 99, 33, 33], .bool true, .bool true,
        .str ([97, 98, 99, 33, 33] ++ helloWorld), .int 1, .int 23, .bool true, .str [98, 99],
        .str [120, 121]])
  have granted : besideAnother.foldlM placedStep ⟨emptyHeap, ⟨[], []⟩⟩ ≠ .error .badPlacement := by
    have completes : (besideAnother.foldlM placedStep ⟨emptyHeap, ⟨[], []⟩⟩).isOk = true := by
      decide +kernel
    intro refused
    rw [refused] at completes
    simp [Except.isOk, Except.toBool] at completes
  obtain ⟨⟨final, finished, same, -⟩, -⟩ :=
    strings_answer_as_texts emptyHeap List.Pairwise.nil besideAnother final' ran granted
  exact ⟨final, finished, same.trans answers⟩

end LearnK.Strings
