import LearnK.Netlink.Replies

/-! How deep `recv_cb` calls itself: a request that names port 0 is answered to the kernel's own socket,
and the answer names port 0 again. -/

namespace LearnK.Netlink

open StepMachine

def Action.ofCall (self : Nat) : Action → Bool
  | .run id _ => id == self
  | _ => false

def ownSteps (self : Nat) (actions : List Action) : Nat := actions.countP (Action.ofCall self)

theorem ownSteps_own {self : Nat} {action : Action} (own : action.ofCall self = true)
    (rest : List Action) : ownSteps self (action :: rest) = ownSteps self rest + 1 := by
  rw [ownSteps, List.countP_cons_of_pos own, ownSteps]

theorem ownSteps_other {self : Nat} {action : Action} (other : action.ofCall self = false)
    (rest : List Action) : ownSteps self (action :: rest) = ownSteps self rest := by
  rw [ownSteps, List.countP_cons_of_neg (by simp [other]), ownSteps]

def Pc.stage : Pc → Nat
  | .skbGet => 0
  | .kmalloc _ => 1
  | .nlmsgNew _ => 2
  | .nlmsgPut .. => 3
  | .netlinkUnicast .. => 4
  | .kfreeSkb => 5
  | .consumeSkb => 6

theorem Pc.stage_lt {pc : Pc} (sending : pc.sending = true) : pc.stage < 5 := by
  cases pc <;> simp [Pc.sending, Pc.stage] at sending ⊢

section

variable {self : Nat} {state next : State} {frame : Frame} {below call : List Frame}

theorem step_ownCall {action : Action} (found : state.calls[self]? = some call)
    (own : action.ofCall self = true) (stepped : step state action = some next) :
    ∃ granted frame below, action = .run self granted ∧ call = frame :: below ∧
      next = recvCb self granted frame below state := by
  cases action with
  | run id granted =>
      obtain rfl : id = self := by simpa [Action.ofCall] using own
      simp only [step, found] at stepped
      cases call with
      | nil => simp at stepped
      | cons frame below => exact ⟨granted, frame, below, rfl, rfl, (Option.some.inj stepped).symm⟩
  | _ => simp [Action.ofCall] at own

theorem recvCb_calls (self : Nat) (granted : Bool) (frame : Frame) (below : List Frame) (state : State) :
    ∃ after, (recvCb self granted frame below state).calls = state.calls.set self after := by
  unfold recvCb
  cases frame.pc with
  | skbGet | kfreeSkb | consumeSkb => exact ⟨_, rfl⟩
  | kmalloc nlh | nlmsgNew nlh => cases granted <;> exact ⟨_, rfl⟩
  | nlmsgPut pid nlSkb =>
      simp only [nlmsgPut_reply]
      exact ⟨_, rfl⟩
  | netlinkUnicast pid nlSkb message =>
      simp only
      split
      · exact ⟨_, rfl⟩
      · split <;> exact ⟨_, rfl⟩

theorem step_otherCall {action : Action} (found : state.calls[self]? = some call)
    (other : action.ofCall self = false) (stepped : step state action = some next) :
    next.calls[self]? = some call := by
  cases action with
  | bind port | close port =>
      simp only [step] at stepped
      split_ifs at stepped
      obtain rfl := Option.some.inj stepped
      exact found
  | sendto data =>
      obtain rfl := Option.some.inj stepped
      exact Numbered.append_old found
  | run id granted =>
      have differs : id ≠ self := by simpa [Action.ofCall] using other
      simp only [step] at stepped
      split at stepped
      · rename_i frame below _
        obtain rfl := Option.some.inj stepped
        obtain ⟨after, replaced⟩ := recvCb_calls id granted frame below state
        rw [replaced, List.getElem?_set_ne differs]
        exact found
      · simp at stepped
  | recvfrom port =>
      obtain ⟨datagram, -, rfl⟩ := Option.map_eq_some_iff.mp stepped
      exact found

/-- Every frame of the call is on its way to the next one, `steps` statements after the entry of the
first. -/
def Deepening (steps : Nat) (call : List Frame) : Prop :=
  ∃ frame below, call = frame :: below ∧ frame.Formed ∧ Asks 0 frame.data ∧
    frame.pc.sending = true ∧ 5 * below.length + frame.pc.stage = steps

theorem recvCb_deepens (self : Nat) (state : State) (below : List Frame) (formed : frame.Formed)
    (asks : Asks 0 frame.data)
    (sending : frame.pc.sending = true) :
    ∃ after, (recvCb self true frame below state).calls = state.calls.set self after ∧
      Deepening (5 * below.length + frame.pc.stage + 1) after := by
  rw [Frame.Formed] at formed
  cases pc : frame.pc with
  | skbGet =>
      simp only [recvCb, pc, if_pos asks.1]
      exact ⟨_, rfl, _, below, rfl, ⟨asks.1, rfl⟩, asks, rfl, rfl⟩
  | kmalloc nlh =>
      simp only [pc] at formed
      have named : Asks nlh.nlmsgPid frame.data := ⟨formed.1, by rw [formed.2]⟩
      simp only [recvCb, pc, if_true]
      exact ⟨_, rfl, _, below, rfl, named, asks, rfl, rfl⟩
  | nlmsgNew pid =>
      simp only [pc] at formed
      simp only [recvCb, pc, if_true]
      exact ⟨_, rfl, _, below, rfl, formed, asks, rfl, rfl⟩
  | nlmsgPut pid nlSkb =>
      simp only [pc] at formed
      simp only [recvCb, pc, nlmsgPut_reply]
      exact ⟨_, rfl, _, below, rfl, ⟨formed, rfl⟩, asks, rfl, rfl⟩
  | netlinkUnicast pid nlSkb message =>
      simp only [pc] at formed
      obtain ⟨named, rfl⟩ := formed
      obtain rfl : pid = 0 := (asks.unique.mp named).symm
      simp only [recvCb, pc, if_true]
      refine ⟨_, rfl, _, _, rfl, trivial, asks_replyTo 0, rfl, ?_⟩
      simp [Pc.stage]
      omega
  | kfreeSkb | consumeSkb => simp [pc, Pc.sending] at sending

def Ending (steps : Nat) (data : List UInt8) (call : List Frame) : Prop :=
  call = [] ∨ ∃ frame, call = [frame] ∧ frame.Formed ∧ frame.data = data ∧ steps ≤ frame.pc.stage

theorem Ending.mono {steps more : Nat} {data : List UInt8} (fewer : steps ≤ more)
    (ending : Ending more data call) : Ending steps data call := by
  rcases ending with none | ⟨frame, one, formed, same, stage⟩
  · exact .inl none
  · exact .inr ⟨frame, one, formed, same, Nat.le_trans fewer stage⟩

theorem recvCb_ends (self : Nat) (granted : Bool) (state : State) (formed : frame.Formed)
    (process : ¬Asks 0 frame.data) :
    ∃ after, (recvCb self granted frame [] state).calls = state.calls.set self after ∧
      Ending (frame.pc.stage + 1) frame.data after := by
  rw [Frame.Formed] at formed
  cases pc : frame.pc with
  | skbGet =>
      simp only [recvCb, pc]
      split
      · rename_i long
        exact ⟨_, rfl, .inr ⟨_, rfl, ⟨long, rfl⟩, rfl, Nat.le_refl _⟩⟩
      · exact ⟨_, rfl, .inr ⟨_, rfl, trivial, rfl, by simp [Pc.stage]⟩⟩
  | kmalloc nlh =>
      simp only [pc] at formed
      have named : Asks nlh.nlmsgPid frame.data := ⟨formed.1, by rw [formed.2]⟩
      simp only [recvCb, pc]
      split <;> exact ⟨_, rfl, .inr ⟨_, rfl, named, rfl, Nat.le_refl _⟩⟩
  | nlmsgNew pid =>
      simp only [pc] at formed
      simp only [recvCb, pc]
      split
      · exact ⟨_, rfl, .inr ⟨_, rfl, formed, rfl, Nat.le_refl _⟩⟩
      · exact ⟨_, rfl, .inr ⟨_, rfl, trivial, rfl, by simp [Pc.stage]⟩⟩
  | nlmsgPut pid nlSkb =>
      simp only [pc] at formed
      simp only [recvCb, pc, nlmsgPut_reply]
      exact ⟨_, rfl, .inr ⟨_, rfl, ⟨formed, rfl⟩, rfl, Nat.le_refl _⟩⟩
  | netlinkUnicast pid nlSkb message =>
      simp only [pc] at formed
      have elsewhere : pid ≠ 0 := fun kernel => process (kernel ▸ formed.1)
      simp only [recvCb, pc, if_neg elsewhere]
      split <;> exact ⟨_, rfl, .inr ⟨_, rfl, trivial, rfl, Nat.le_refl _⟩⟩
  | kfreeSkb =>
      simp only [recvCb, pc]
      exact ⟨_, rfl, .inr ⟨_, rfl, trivial, rfl, Nat.le_refl _⟩⟩
  | consumeSkb =>
      simp only [recvCb, pc]
      exact ⟨_, rfl, .inl rfl⟩

end

theorem run_deepens {self steps : Nat} {state final : State} {call : List Frame} {actions : List Action}
    (found : state.calls[self]? = some call) (deepening : Deepening steps call)
    (granted : .run self false ∉ actions) (ran : run step state actions = some final) :
    ∃ call, final.calls[self]? = some call ∧ Deepening (steps + ownSteps self actions) call := by
  induction actions generalizing state steps call with
  | nil =>
      obtain rfl := Option.some.inj ran
      exact ⟨call, found, deepening⟩
  | cons action rest ih =>
      obtain ⟨next, stepped, remaining⟩ := run_cons_some ran
      have later : .run self false ∉ rest := fun member => granted (List.mem_cons_of_mem _ member)
      cases own : action.ofCall self with
      | false =>
          rw [ownSteps_other own]
          exact ih (step_otherCall found own stepped) deepening later remaining
      | true =>
          obtain ⟨answer, frame, below, rfl, rfl, rfl⟩ := step_ownCall found own stepped
          obtain ⟨top, rest', same, formed, asks, sending, here⟩ := deepening
          obtain ⟨rfl, rfl⟩ := List.cons.inj same
          have yes : answer = true := by
            cases answer with
            | false => exact absurd (List.mem_cons_self ..) granted
            | true => rfl
          subst yes
          obtain ⟨after, replaced, deeper⟩ := recvCb_deepens self state below formed asks sending
          have there : (recvCb self true frame below state).calls[self]? = some after := by
            rw [replaced, Numbered.set_self found]
          rw [ownSteps_own own, Nat.add_comm _ 1, ← Nat.add_assoc, ← here]
          exact ih there deeper later remaining

theorem run_ends {self steps : Nat} {data : List UInt8} {state final : State} {call : List Frame}
    {actions : List Action} (process : ¬Asks 0 data) (found : state.calls[self]? = some call)
    (ending : Ending steps data call) (ran : run step state actions = some final) :
    ∃ call, final.calls[self]? = some call ∧ Ending (steps + ownSteps self actions) data call := by
  induction actions generalizing state steps call with
  | nil =>
      obtain rfl := Option.some.inj ran
      exact ⟨call, found, ending⟩
  | cons action rest ih =>
      obtain ⟨next, stepped, remaining⟩ := run_cons_some ran
      cases own : action.ofCall self with
      | false =>
          rw [ownSteps_other own]
          exact ih (step_otherCall found own stepped) ending remaining
      | true =>
          obtain ⟨answer, frame, below, rfl, rfl, rfl⟩ := step_ownCall found own stepped
          rcases ending with none | ⟨first, same, formed, rfl, here⟩
          · simp at none
          obtain ⟨rfl, rfl⟩ := List.cons.inj same
          obtain ⟨after, replaced, ends⟩ := recvCb_ends self answer state formed process
          have there : (recvCb self answer frame [] state).calls[self]? = some after := by
            rw [replaced, Numbered.set_self found]
          rw [ownSteps_own own, Nat.add_comm _ 1, ← Nat.add_assoc]
          exact ih there (ends.mono (Nat.succ_le_succ here)) remaining

/-- A request that names port 0 and finds memory for its answers never returns: five statements, and
one more `recv_cb` stands on the stack of its sender.  Each other request returns after seven
statements of its own at most, whatever is refused to it, and `recv_cb` stands there once. -/
theorem recvCb_recurses (state final : State) (self skb : Nat) (data : List UInt8) (actions : List Action)
    (found : state.calls[self]? = some [⟨skb, data, .skbGet⟩])
    (ran : run step state actions = some final) :
    (Asks 0 data → .run self false ∉ actions → ∃ call, final.calls[self]? = some call ∧
      call.length = ownSteps self actions / 5 + 1) ∧
    (¬Asks 0 data → ∃ call, final.calls[self]? = some call ∧ call.length ≤ 1 ∧
      (7 ≤ ownSteps self actions → call = [])) := by
  refine ⟨fun asks granted => ?_, fun process => ?_⟩
  · have entered : Deepening 0 [⟨skb, data, .skbGet⟩] := ⟨_, [], rfl, trivial, asks, rfl, rfl⟩
    obtain ⟨call, there, frame, below, rfl, -, -, sending, here⟩ := run_deepens found entered granted ran
    refine ⟨_, there, ?_⟩
    have bound := Pc.stage_lt sending
    rw [List.length_cons]
    omega
  · have entered : Ending 0 data [⟨skb, data, .skbGet⟩] := .inr ⟨_, rfl, trivial, rfl, Nat.zero_le _⟩
    obtain ⟨call, there, ending⟩ := run_ends process found entered ran
    refine ⟨call, there, ?_⟩
    rcases ending with rfl | ⟨frame, rfl, -, -, stage⟩
    · simp
    · have last : frame.pc.stage ≤ 6 := by cases frame.pc <;> simp [Pc.stage]
      refine ⟨Nat.le_refl _, fun many => ?_⟩
      omega

def selfAddressed : List UInt8 := (NlMsgHdr.mk 16 0 0 0 0).bytes

theorem recvCb_recurses_selfAddressed : ∃ state final,
    run step initial [.sendto selfAddressed] = some state ∧
      run step state (List.replicate 12 (.run 0 true)) = some final ∧
      ∃ call, final.calls[0]? = some call ∧ call.length = 3 := by
  obtain ⟨state, sent⟩ : ∃ state, run step initial [.sendto selfAddressed] = some state := ⟨_, rfl⟩
  have found : state.calls[0]? = some [⟨0, selfAddressed, .skbGet⟩] := by
    obtain rfl := Option.some.inj sent
    rfl
  obtain ⟨final, ran⟩ : ∃ final, run step state (List.replicate 12 (.run 0 true)) = some final := by
    obtain rfl := Option.some.inj sent
    exact ⟨_, rfl⟩
  exact ⟨state, final, sent, ran, (recvCb_recurses state final 0 0 selfAddressed
    (List.replicate 12 (.run 0 true)) found ran).1 (by decide) (by decide)⟩

end LearnK.Netlink
