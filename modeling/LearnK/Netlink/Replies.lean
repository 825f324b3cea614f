import LearnK.Netlink.Core
import Mathlib.Data.List.Count

/-! Which answers the requests get, and what the programs read of them: one answer or one failure for
each request that names a port of a process, and it goes to the port that is named. -/

namespace LearnK.Netlink

open ByteMemory StepMachine

theorem field_at (before after : List UInt8) {data : List UInt8} {offset width value : Nat}
    (split : data = before ++ (littleEndian width value ++ after)) (here : before.length = offset)
    (bound : value < 256 ^ width) : field data offset width = value := by
  subst split here
  rw [field, List.drop_left, List.take_append_of_le_length (by simp),
    List.take_of_length_le (by simp)]
  exact ofLittleEndian_littleEndian bound

theorem NlMsgHdr.bytes_length (nlh : NlMsgHdr) : nlh.bytes.length = nlmsgHdrlen := by
  simp [NlMsgHdr.bytes, nlmsgHdrlen]

theorem nlmsgHdr_bytes (nlh : NlMsgHdr) (rest : List UInt8) : nlmsgHdr (nlh.bytes ++ rest) = nlh := by
  obtain ⟨len, type, flags, seq, pid⟩ := nlh
  have lenField : field ((NlMsgHdr.mk len type flags seq pid).bytes ++ rest) 0 4 = len.toNat :=
    field_at [] _ (by simp [NlMsgHdr.bytes]; rfl) rfl len.toNat_lt
  have typeField : field ((NlMsgHdr.mk len type flags seq pid).bytes ++ rest) 4 2 = type.toNat :=
    field_at (littleEndian 4 len.toNat) _ (by simp [NlMsgHdr.bytes]; rfl) (by simp) type.toNat_lt
  have flagsField : field ((NlMsgHdr.mk len type flags seq pid).bytes ++ rest) 6 2 = flags.toNat :=
    field_at (littleEndian 4 len.toNat ++ littleEndian 2 type.toNat) _
      (by simp [NlMsgHdr.bytes]; rfl) (by simp) flags.toNat_lt
  have seqField : field ((NlMsgHdr.mk len type flags seq pid).bytes ++ rest) 8 4 = seq.toNat :=
    field_at (littleEndian 4 len.toNat ++ (littleEndian 2 type.toNat ++ littleEndian 2 flags.toNat)) _
      (by simp [NlMsgHdr.bytes]; rfl) (by simp) seq.toNat_lt
  have pidField : field ((NlMsgHdr.mk len type flags seq pid).bytes ++ rest) 12 4 = pid.toNat :=
    field_at (littleEndian 4 len.toNat ++ (littleEndian 2 type.toNat ++
      (littleEndian 2 flags.toNat ++ littleEndian 4 seq.toNat))) _
      (by simp [NlMsgHdr.bytes]; rfl) (by simp) pid.toNat_lt
  simp only [nlmsgHdr, lenField, typeField, flagsField, seqField, pidField, UInt32.ofNat_toNat,
    UInt16.ofNat_toNat]

/-- The answer to `pid`, which stands in it as the type, cut to 16 bits. -/
def replyTo (pid : UInt32) : List UInt8 :=
  (NlMsgHdr.mk 31 pid.toUInt16 0 0 0).bytes ++ helloUserspace

theorem nlmsgPut_reply (pid : UInt32) :
    nlmsgPut (nlmsgSpace (stringlen helloUserspace)) 0 0 pid 0
      (helloUserspace.take (stringlen helloUserspace)) = some (replyTo pid) := rfl

theorem printedText_replyTo (pid : UInt32) : printedText (replyTo pid) = helloUserspace.dropLast := by
  have header := NlMsgHdr.bytes_length ⟨31, pid.toUInt16, 0, 0, 0⟩
  have whole : (replyTo pid).take (nlmsgLength maxPload) = replyTo pid := by
    apply List.take_of_length_le
    rw [replyTo, List.length_append, header]
    decide
  rw [printedText, whole, replyTo, List.append_assoc, ← header, List.drop_left]
  rfl

def Asks (pid : UInt32) (data : List UInt8) : Prop :=
  nlmsgSpace 0 ≤ data.length ∧ (nlmsgHdr data).nlmsgPid = pid

instance (pid : UInt32) (data : List UInt8) : Decidable (Asks pid data) :=
  inferInstanceAs (Decidable (_ ∧ _))

theorem asks_replyTo (pid : UInt32) : Asks 0 (replyTo pid) := by
  refine ⟨?_, by rw [replyTo, nlmsgHdr_bytes]⟩
  rw [replyTo, List.length_append, NlMsgHdr.bytes_length]
  decide

def Pc.sending : Pc → Bool
  | .skbGet | .kmalloc _ | .nlmsgNew _ | .nlmsgPut .. | .netlinkUnicast .. => true
  | .kfreeSkb | .consumeSkb => false

def Frame.Formed (frame : Frame) : Prop :=
  match frame.pc with
  | .kmalloc nlh => nlmsgSpace 0 ≤ frame.data.length ∧ nlh = nlmsgHdr frame.data
  | .nlmsgNew pid | .nlmsgPut pid _ => Asks pid frame.data
  | .netlinkUnicast pid _ message => Asks pid frame.data ∧ message = replyTo pid
  | _ => True

/-- Below the innermost frame each one has sent to the kernel's own port and waits for that. -/
def Stacked : List Frame → Prop
  | [] => True
  | frame :: below => frame.Formed ∧ (below ≠ [] → Asks 0 frame.data) ∧
      ∀ outer ∈ below, Asks 0 outer.data ∧ outer.pc = .kfreeSkb

def Awaits (pid : UInt32) : List Frame → Prop
  | [] => False
  | frame :: _ => frame.pc.sending = true ∧ Asks pid frame.data

instance (pid : UInt32) : (call : List Frame) → Decidable (Awaits pid call)
  | [] => inferInstanceAs (Decidable False)
  | _ :: _ => inferInstanceAs (Decidable (_ ∧ _))

theorem Stacked.outer {frame : Frame} {below : List Frame} (stacked : Stacked (frame :: below)) :
    Stacked below := by
  cases below with
  | nil => trivial
  | cons outer rest =>
      have waits := stacked.2.2 outer (by simp)
      refine ⟨?_, fun _ => waits.1, fun other member => stacked.2.2 other (by simp [member])⟩
      rw [Frame.Formed, waits.2]
      trivial

theorem Stacked.replace {frame other : Frame} {below : List Frame}
    (stacked : Stacked (frame :: below))
    (same : other.data = frame.data) (formed : other.Formed) : Stacked (other :: below) :=
  ⟨formed, same ▸ stacked.2.1, stacked.2.2⟩

theorem not_awaits_outer {frame : Frame} {below : List Frame} (stacked : Stacked (frame :: below))
    (pid : UInt32) : ¬Awaits pid below := by
  cases below with
  | nil => exact id
  | cons outer rest =>
      rintro ⟨sending, -⟩
      rw [(stacked.2.2 outer (by simp)).2] at sending
      simp [Pc.sending] at sending

theorem Asks.unique {pid other : UInt32} {data : List UInt8} (asks : Asks pid data) :
    Asks other data ↔ pid = other :=
  ⟨fun also => asks.2.symm.trans also.2, fun same => same ▸ asks⟩

def State.asked (state : State) (pid : UInt32) : Nat := state.requests.countP (Asks pid)

def State.awaiting (state : State) (pid : UInt32) : Nat := state.calls.countP (Awaits pid)

def State.answered (state : State) (pid : UInt32) : Nat := state.results.countP (·.1 = pid)

def State.delivered (state : State) (pid : UInt32) : Nat :=
  state.results.countP fun result => result.1 = pid && result.2.isSome

structure Turn (number : Nat) (frames after : List Frame) (state next : State) : Prop where
  calls : next.calls = state.calls.set number after
  stacked : Stacked after
  answered : ∀ pid, pid ≠ 0 → next.answered pid + (decide (Awaits pid after)).toNat =
    state.answered pid + (decide (Awaits pid frames)).toNat
  requests : next.requests = state.requests
  printed : next.printed = state.printed
  sent : next.waiting = state.waiting ∧ (∀ pid, next.delivered pid = state.delivered pid) ∨
    ∃ pid nlSkb, next.waiting = state.waiting ++ [⟨pid, nlSkb, replyTo pid⟩] ∧
      next.results = state.results ++ [(pid, some (replyTo pid))]

section

variable {self : Nat} {granted : Bool} {frame : Frame} {below after : List Frame} {state next : State}

theorem Turn.quiet (calls : next.calls = state.calls.set self after) (stacked : Stacked after)
    (same : ∀ pid, pid ≠ 0 → (Awaits pid after ↔ Awaits pid (frame :: below)))
    (results : next.results = state.results) (requests : next.requests = state.requests)
    (printed : next.printed = state.printed) (waiting : next.waiting = state.waiting) :
    Turn self (frame :: below) after state next := by
  refine ⟨calls, stacked, fun pid process => ?_, requests, printed, .inl ⟨waiting, fun pid => ?_⟩⟩
  · rw [State.answered, State.answered, results, decide_eq_decide.mpr (same pid process)]
  · rw [State.delivered, State.delivered, results]

theorem answered_once {pid other : UInt32} {message : Option (List UInt8)}
    (results : next.results = state.results ++ [(pid, message)]) (asks : Asks pid frame.data)
    (sending : frame.pc.sending = true) :
    next.answered other +
        (decide (Awaits other ({ frame with pc := .kfreeSkb } :: below))).toNat =
      state.answered other + (decide (Awaits other (frame :: below))).toNat := by
  have before : decide (Awaits other (frame :: below)) = decide (pid = other) := by
    rw [decide_eq_decide, Awaits, and_iff_right sending]
    exact asks.unique
  have gone : ¬Awaits other ({ frame with pc := .kfreeSkb } :: below) := fun awaits => by
    simp [Awaits, Pc.sending] at awaits
  rw [State.answered, results, List.countP_append, ← State.answered, before, decide_eq_false gone,
    List.countP_singleton]
  by_cases same : pid = other <;> simp [same]

theorem Turn.failed {pid : UInt32} (stacked : Stacked (frame :: below))
    (calls : next.calls = state.calls.set self ({ frame with pc := .kfreeSkb } :: below))
    (results : next.results = state.results ++ [(pid, none)]) (asks : Asks pid frame.data)
    (sending : frame.pc.sending = true) (requests : next.requests = state.requests)
    (printed : next.printed = state.printed) (waiting : next.waiting = state.waiting) :
    Turn self (frame :: below) ({ frame with pc := .kfreeSkb } :: below) state next := by
  refine ⟨calls, stacked.replace rfl trivial, fun other _ => answered_once results asks sending,
    requests, printed, .inl ⟨waiting, fun other => ?_⟩⟩
  rw [State.delivered, results, List.countP_append, ← State.delivered]
  simp

theorem recvCb_turn (self : Nat) (granted : Bool) (state : State)
    (stacked : Stacked (frame :: below)) :
    ∃ after, Turn self (frame :: below) after state (recvCb self granted frame below state) := by
  have formed := stacked.1
  rw [Frame.Formed] at formed
  cases pc : frame.pc with
  | skbGet =>
      simp only [recvCb, pc]
      split
      · rename_i long
        refine ⟨_, .quiet rfl (stacked.replace rfl ⟨long, rfl⟩) (fun pid _ => ?_) rfl rfl rfl rfl⟩
        simp [Awaits, pc, Pc.sending]
      · rename_i short
        refine ⟨_, .quiet rfl (stacked.replace rfl trivial) (fun pid _ => ?_) rfl rfl rfl rfl⟩
        simp [Awaits, pc, Pc.sending, Asks, short]
  | kmalloc nlh =>
      simp only [pc] at formed
      have asks : Asks nlh.nlmsgPid frame.data := ⟨formed.1, by rw [formed.2]⟩
      simp only [recvCb, pc]
      have later : Stacked ({ frame with pc := .nlmsgNew nlh.nlmsgPid } :: below) :=
        stacked.replace rfl asks
      have same (pid : UInt32) : Awaits pid ({ frame with pc := .nlmsgNew nlh.nlmsgPid } :: below) ↔
          Awaits pid (frame :: below) := by
        simp [Awaits, pc, Pc.sending]
      split <;> exact ⟨_, .quiet rfl later (fun pid _ => same pid) rfl rfl rfl rfl⟩
  | nlmsgNew pid =>
      simp only [pc] at formed
      simp only [recvCb, pc]
      split
      · refine ⟨_, .quiet rfl (stacked.replace rfl formed) (fun other _ => ?_) rfl rfl rfl rfl⟩
        simp [Awaits, pc, Pc.sending]
      · exact ⟨_, .failed stacked rfl rfl formed (by rw [pc]; rfl) rfl rfl rfl⟩
  | nlmsgPut pid nlSkb =>
      simp only [pc] at formed
      simp only [recvCb, pc, nlmsgPut_reply]
      refine ⟨_, .quiet rfl (stacked.replace rfl ⟨formed, rfl⟩) (fun other _ => ?_) rfl rfl rfl rfl⟩
      simp [Awaits, pc, Pc.sending]
  | netlinkUnicast pid nlSkb message =>
      simp only [pc] at formed
      obtain ⟨asks, rfl⟩ := formed
      simp only [recvCb, pc]
      split
      · rename_i kernel
        subst kernel
        refine ⟨_, .quiet rfl ⟨trivial, fun _ => asks_replyTo 0, ?_⟩ (fun other process => ?_)
          rfl rfl rfl rfl⟩
        · rintro outer (_ | ⟨_, member⟩)
          · exact ⟨asks, rfl⟩
          · exact stacked.2.2 outer member
        · have inner :
            ¬Awaits other (⟨nlSkb, replyTo 0, .skbGet⟩ :: { frame with pc := .kfreeSkb } :: below) :=
            fun awaits => process ((asks_replyTo 0).unique.mp awaits.2).symm
          have before : ¬Awaits other (frame :: below) := fun awaits =>
            process (asks.unique.mp awaits.2).symm
          exact iff_of_false inner before
      · split
        · refine ⟨_, rfl, stacked.replace rfl trivial, fun other _ => ?_, rfl, rfl,
            .inr ⟨pid, nlSkb, rfl, rfl⟩⟩
          exact answered_once rfl asks (by rw [pc]; rfl)
        · exact ⟨_, .failed stacked rfl rfl asks (by rw [pc]; rfl) rfl rfl rfl⟩
  | kfreeSkb =>
      simp only [recvCb, pc]
      refine ⟨_, .quiet rfl (stacked.replace rfl trivial) (fun other _ => ?_) rfl rfl rfl rfl⟩
      simp [Awaits, pc, Pc.sending]
  | consumeSkb =>
      simp only [recvCb, pc]
      refine ⟨_, .quiet rfl stacked.outer (fun other _ => ?_) rfl rfl rfl rfl⟩
      refine iff_of_false (not_awaits_outer stacked other) fun awaits => ?_
      simp [Awaits, pc, Pc.sending] at awaits

end

/-- A request that names a port of a process has one outcome, or the call that is at it is still on
its way; a port is sent the one message and no other, and what is printed or waits there was sent
there. -/
structure Answers (state : State) : Prop where
  answered : ∀ pid, pid ≠ 0 → state.asked pid = state.answered pid + state.awaiting pid
  received : ∀ port, state.printed.countP (·.1 = port) + state.waiting.countP (·.port = port) ≤
    state.delivered port
  replies : ∀ datagram ∈ state.waiting, datagram.message = replyTo datagram.port
  printed : ∀ line ∈ state.printed, line.2 = helloUserspace.dropLast

structure Serves (state : State) : Prop extends Answers state where
  stacked : ∀ call ∈ state.calls, Stacked call

section

variable {state next : State}

theorem State.asked_congr (same : next.requests = state.requests) (pid : UInt32) :
    next.asked pid = state.asked pid := by
  rw [State.asked, State.asked, same]

theorem serves_run {self : Nat} {granted : Bool} {frame : Frame} {below : List Frame}
    (serves : Serves state) (found : state.calls[self]? = some (frame :: below)) :
    Serves (recvCb self granted frame below state) := by
  obtain ⟨after, turn⟩ := recvCb_turn self granted state
    (serves.stacked _ (List.mem_of_getElem? found))
  refine ⟨⟨fun pid process => ?_, fun port => ?_, fun datagram member => ?_, ?_⟩,
    fun call member => ?_⟩
  · have moved : (state.calls.set self after).countP (Awaits pid) +
        (decide (Awaits pid (frame :: below))).toNat =
          state.calls.countP (Awaits pid) + (decide (Awaits pid after)).toNat :=
      Numbered.countP_set found
    have before := serves.answered pid process
    have here := turn.answered pid process
    rw [State.asked_congr turn.requests, State.awaiting, turn.calls]
    rw [State.awaiting] at before
    omega
  · have before := serves.received port
    rw [turn.printed]
    rcases turn.sent with ⟨waiting, delivered⟩ | ⟨pid, nlSkb, waiting, results⟩
    · rw [waiting, delivered]
      exact before
    · rw [State.delivered] at before ⊢
      rw [waiting, results, List.countP_append, List.countP_append]
      by_cases same : pid = port <;> simp [same] <;> omega
  · rcases turn.sent with ⟨waiting, -⟩ | ⟨pid, nlSkb, waiting, -⟩
    · exact serves.replies datagram (waiting ▸ member)
    · rw [waiting, List.mem_append, List.mem_singleton] at member
      rcases member with old | rfl
      · exact serves.replies datagram old
      · rfl
  · rw [turn.printed]
    exact serves.printed
  · rw [turn.calls] at member
    rcases List.mem_or_eq_of_mem_set member with old | rfl
    · exact serves.stacked call old
    · exact turn.stacked

theorem serves_sendto {data : List UInt8} (serves : Serves state)
    (stepped : step state (.sendto data) = some next) : Serves next := by
  obtain rfl := Option.some.inj stepped
  refine ⟨⟨fun pid process => ?_, serves.received, serves.replies, serves.printed⟩,
    fun call member => ?_⟩
  · have before := serves.answered pid process
    simp only [State.asked, State.awaiting, State.answered, State.newSkb, State.record] at before ⊢
    rw [List.countP_append, List.countP_append, before, Nat.add_assoc]
    congr 1
    simp [Awaits, Pc.sending]
  · rcases List.mem_append.mp member with old | new
    · exact serves.stacked call old
    · rw [List.mem_singleton.mp new]
      exact ⟨trivial, fun none => absurd rfl none, by simp⟩

theorem serves_close {port : UInt32} (serves : Serves state)
    (stepped : step state (.close port) = some next) : Serves next := by
  simp only [step] at stepped
  split_ifs at stepped
  obtain rfl := Option.some.inj stepped
  refine ⟨⟨serves.answered, fun other => ?_, fun datagram member => ?_, serves.printed⟩,
    serves.stacked⟩
  · have fewer : (state.waiting.filter (·.port ≠ port)).countP (·.port = other) ≤
        state.waiting.countP (·.port = other) := List.filter_sublist.countP_le
    exact Nat.le_trans (Nat.add_le_add_left fewer _) (serves.received other)
  · exact serves.replies datagram (List.mem_of_mem_filter member)

theorem serves_recvfrom {port : UInt32} (serves : Serves state)
    (stepped : step state (.recvfrom port) = some next) : Serves next := by
  obtain ⟨datagram, found, rfl⟩ := Option.map_eq_some_iff.mp stepped
  have member := List.mem_of_find?_eq_some found
  have here : datagram.port = port := by simpa using List.find?_some found
  refine ⟨⟨serves.answered, fun other => ?_, fun other kept => ?_, fun line told => ?_⟩,
    serves.stacked⟩
  · have before := serves.received other
    have taken : (state.waiting.erase datagram).countP (·.port = other) =
        state.waiting.countP (·.port = other) - if datagram.port = other then 1 else 0 := by
      simp [List.countP_erase, member]
    simp only [State.delivered, State.record] at before ⊢
    rw [List.countP_append, taken]
    by_cases same : port = other
    · subst same
      have among : 0 < state.waiting.countP (·.port = port) :=
        List.countP_pos_iff.mpr ⟨datagram, member, by simpa using here⟩
      simp [here]
      omega
    · simpa [here, same] using before
  · exact serves.replies other (List.mem_of_mem_erase kept)
  · rcases List.mem_append.mp told with old | new
    · exact serves.printed line old
    · rw [List.mem_singleton.mp new, serves.replies datagram member]
      exact printedText_replyTo _

theorem serves_step {action : Action} (serves : Serves state)
    (stepped : step state action = some next) :
    Serves next := by
  cases action with
  | bind port =>
      simp only [step] at stepped
      split_ifs at stepped
      obtain rfl := Option.some.inj stepped
      exact ⟨⟨serves.answered, serves.received, serves.replies, serves.printed⟩, serves.stacked⟩
  | close port => exact serves_close serves stepped
  | sendto data => exact serves_sendto serves stepped
  | run self granted =>
      simp only [step] at stepped
      split at stepped
      · rename_i frame below found
        obtain rfl := Option.some.inj stepped
        exact serves_run serves found
      · simp at stepped
  | recvfrom port => exact serves_recvfrom serves stepped

end

theorem serves_initial : Serves initial := by
  refine ⟨⟨fun _ _ => rfl, fun _ => Nat.le_refl _, ?_, ?_⟩, ?_⟩ <;> simp [initial]

/-- In every run each request that is as long as its header and names the port of a process has one
outcome, and a program never prints more messages than were sent to its port: for each of them the
greeting, whoever asked for it. -/
theorem netlink_answers (actions : List Action) : Always step Answers initial actions := by
  have serves : Always step Serves initial actions :=
    always_invariant (fun _ _ _ before stepped => serves_step before stepped) serves_initial actions
  exact serves.imp fun _ now => now.toAnswers

example : (run step initial ([.bind 50, .sendto (NlMsgHdr.mk 16 0 0 0 50).bytes, .sendto [1, 2, 3]] ++
    List.replicate 7 (.run 0 true) ++ List.replicate 3 (.run 1 true) ++ [.recvfrom 50])).map
      (fun state => (state.printed, state.calls)) =
          some ([(50, helloUserspace.dropLast)], [[], []]) := by
  decide

end LearnK.Netlink
