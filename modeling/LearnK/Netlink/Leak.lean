import LearnK.Netlink.Core

/-! What the messages cost in memory: each buffer is given back once, and each `struct setup_param` is
kept for ever. -/

namespace LearnK.Netlink

open Ledger StepMachine

def Pc.held (skb : Nat) : Pc → List Resource
  | .skbGet | .consumeSkb => []
  | .kmalloc _ | .nlmsgNew _ | .kfreeSkb => [.reference skb]
  | .nlmsgPut _ nlSkb | .netlinkUnicast _ nlSkb _ => [.reference skb, .skb nlSkb]

def Frame.held (frame : Frame) : List Resource := .skb frame.skb :: frame.pc.held frame.skb

def callHeld (call : List Frame) : List Resource := call.flatMap Frame.held

def State.parameters (state : State) : List Resource := (List.range state.setups).map .setup

def State.queued (state : State) : List Resource :=
  state.waiting.map fun datagram => .skb datagram.skb

def State.held (state : State) : List Resource :=
  state.calls.flatMap callHeld ++ (state.queued ++ state.parameters)

def State.heldBeside (state : State) (before after : List (List Frame)) : List Resource :=
  before.flatMap callHeld ++ after.flatMap callHeld ++ (state.queued ++ state.parameters)

structure Holds (state : State) : Prop where
  leaves : Leaves (fun _ => false) state.events state.held
  numbered : ∀ number, .skb number ∈ state.held → number < state.skbs

section

variable {state next : State} {call below : List Frame} {before after : List (List Frame)}

theorem held_split (split : state.calls = before ++ call :: after) :
    state.held.Perm (callHeld call ++ state.heldBeside before after) := by
  rw [State.held, State.heldBeside, split, List.flatMap_append, List.flatMap_cons, List.append_assoc,
    List.append_assoc, List.append_assoc]
  exact List.perm_append_comm_assoc _ _ _

theorem reference_mem {number : Nat} (held : .reference number ∈ callHeld call) :
    .skb number ∈ callHeld call := by
  obtain ⟨frame, member, own⟩ := List.mem_flatMap.mp held
  have same : frame.skb = number := by
    rw [Frame.held, List.mem_cons, or_iff_right (by simp)] at own
    cases pc : frame.pc <;> simp [pc, Pc.held] at own <;> exact own.symm
  exact List.mem_flatMap.mpr ⟨frame, member, by simp [Frame.held, same]⟩

theorem reference_mem_beside {number : Nat}
    (held : .reference number ∈ state.heldBeside before after) :
    .skb number ∈ state.heldBeside before after := by
  have calls : .reference number ∈ before.flatMap callHeld ++ after.flatMap callHeld := by
    simpa [State.heldBeside, State.queued, State.parameters] using held
  rw [← List.flatMap_append] at calls
  obtain ⟨call, member, own⟩ := List.mem_flatMap.mp calls
  have found : .skb number ∈ (before ++ after).flatMap callHeld :=
    List.mem_flatMap.mpr ⟨call, member, reference_mem own⟩
  rw [State.heldBeside, List.mem_append]
  exact .inl (by rwa [List.flatMap_append] at found)

theorem setup_not_held {number : Nat} : .setup number ∉ callHeld call := by
  intro held
  obtain ⟨frame, -, own⟩ := List.mem_flatMap.mp held
  rw [Frame.held, List.mem_cons, or_iff_right (by simp)] at own
  cases pc : frame.pc <;> simp [pc, Pc.held] at own

theorem callHeld_cons (frame : Frame) (below : List Frame) : callHeld (frame :: below) =
    .skb frame.skb :: (frame.pc.held frame.skb ++ callHeld below) := rfl

theorem Holds.of_perm {owned : List Resource} (perm : owned.Perm next.held)
    (leaves : Leaves (fun _ => false) next.events owned)
    (numbered : ∀ number, .skb number ∈ owned → number < next.skbs) : Holds next :=
  ⟨leaves.perm perm, fun number member => numbered number (perm.mem_iff.mpr member)⟩

theorem Holds.of_split (split : next.calls = before ++ call :: after) {owned : List Resource}
    (perm : owned.Perm (callHeld call ++ next.heldBeside before after))
    (leaves : Leaves (fun _ => false) next.events owned)
    (numbered : ∀ number, .skb number ∈ owned → number < next.skbs) : Holds next :=
  .of_perm (perm.trans (held_split split).symm) leaves numbered

theorem perm_third {α : Type*} (first second third : α) (rest : List α) :
    (first :: second :: third :: rest).Perm (third :: first :: second :: rest) :=
  @List.perm_middle _ third [first, second] rest

theorem holds_run {self : Nat} {granted : Bool} {frame : Frame} (holds : Holds state)
    (found : state.calls[self]? = some (frame :: below)) :
    Holds (recvCb self granted frame below state) := by
  obtain ⟨before, after, split, replaced⟩ := Numbered.set_split found
  have own := holds.leaves.perm (held_split split)
  have numbered (number : Nat)
      (member : .skb number ∈ callHeld (frame :: below) ++ state.heldBeside before after) :
      number < state.skbs := holds.numbered number ((held_split split).mem_iff.mpr member)
  rw [callHeld_cons] at own numbered
  cases pc : frame.pc with
  | skbGet =>
      rw [pc] at own numbered
      have fresh : .reference frame.skb ∉
          .skb frame.skb :: (Pc.skbGet.held frame.skb ++ callHeld below) ++
            state.heldBeside before after := by
        intro held
        have again : .skb frame.skb ∈ callHeld below ++ state.heldBeside before after := by
          have elsewhere : .reference frame.skb ∈
              callHeld below ++ state.heldBeside before after := by
            simpa [Pc.held] using held
          rcases List.mem_append.mp elsewhere with lower | beside
          · exact List.mem_append_left _ (reference_mem lower)
          · exact List.mem_append_right _ (reference_mem_beside beside)
        exact (List.nodup_cons.mp own.distinct).1 again
      simp only [recvCb, pc]
      refine .of_split (replaced _) ?_ (own.alloc rfl fresh) ?_
      · split <;> exact List.Perm.swap _ _ _
      · intro number member
        exact numbered number (by simpa using member)
  | kmalloc nlh =>
      rw [pc] at own numbered
      simp only [recvCb, pc]
      split
      · have fresh : .setup state.setups ∉ .skb frame.skb ::
            ((Pc.kmalloc nlh).held frame.skb ++ callHeld below) ++ state.heldBeside before after := by
          simp [Pc.held, State.heldBeside, State.queued, State.parameters, setup_not_held]
        refine .of_split (replaced _) ?_ (own.alloc rfl fresh) ?_
        · have last : (state.newSetup.setCall self
                ({ frame with pc := .nlmsgNew nlh.nlmsgPid } :: below)).heldBeside before after =
              state.heldBeside before after ++ [.setup state.setups] := by
            simp [State.heldBeside, State.parameters, State.newSetup, State.setCall, State.queued,
              State.record, List.range_succ]
          rw [last, ← List.append_assoc]
          exact (List.perm_append_singleton _ _).symm
        · intro number member
          exact numbered number (by simpa using member)
      · exact .of_split (replaced _) (.refl _) own numbered
  | nlmsgNew pid =>
      rw [pc] at own numbered
      simp only [recvCb, pc]
      split
      · have fresh : .skb state.skbs ∉ .skb frame.skb ::
            ((Pc.nlmsgNew pid).held frame.skb ++ callHeld below) ++ state.heldBeside before after :=
          fun held => Nat.lt_irrefl _ (numbered _ held)
        refine .of_split (replaced _) ?_ (own.alloc rfl fresh) fun number member => ?_
        · exact (List.Perm.swap _ _ _).trans ((List.Perm.swap _ _ _).cons _)
        · rcases List.mem_cons.mp member with same | old
          · obtain rfl := Resource.skb.inj same
            exact Nat.lt_succ_self _
          · exact Nat.lt_succ_of_lt (numbered number old)
      · exact .of_split (replaced _) (.refl _) own numbered
  | nlmsgPut pid nlSkb =>
      rw [pc] at own numbered
      simp only [recvCb, pc]
      split
      · exact .of_split (replaced _) (.refl _) (own.perm (perm_third ..)).free
          fun number member => numbered number
            ((perm_third ..).mem_iff.mpr (List.mem_cons_of_mem _ member))
      · exact .of_split (replaced _) (.refl _) own numbered
  | netlinkUnicast pid nlSkb message =>
      rw [pc] at own numbered
      simp only [recvCb, pc]
      split
      · exact .of_split (replaced _) (perm_third ..) own numbered
      · split
        · have whole : ((state.queue ⟨pid, nlSkb, message⟩).result pid (some message)).heldBeside
                before after =
              before.flatMap callHeld ++ (after.flatMap callHeld ++
                (state.queued ++ .skb nlSkb :: state.parameters)) := by
            simp [State.heldBeside, State.queued, State.parameters, State.queue, State.result]
          have moved : (.skb nlSkb :: (callHeld below ++ state.heldBeside before after)).Perm
              (callHeld below ++
                ((state.queue ⟨pid, nlSkb, message⟩).result pid (some message)).heldBeside
                  before after) := by
            rw [whole, State.heldBeside]
            simpa using (@List.perm_middle _ (.skb nlSkb)
              (callHeld below ++ (before.flatMap callHeld ++ (after.flatMap callHeld ++ state.queued)))
              state.parameters).symm
          exact .of_split (replaced _) ((moved.cons _).cons _) own numbered
        · exact .of_split (replaced _) (.refl _) (own.perm (perm_third ..)).free
            fun number member => numbered number
              ((perm_third ..).mem_iff.mpr (List.mem_cons_of_mem _ member))
  | kfreeSkb =>
      rw [pc] at own numbered
      simp only [recvCb, pc]
      exact .of_split (replaced _) (.refl _) (own.perm (.swap ..)).free
        fun number member => numbered number
          ((List.Perm.swap ..).mem_iff.mpr (List.mem_cons_of_mem _ member))
  | consumeSkb =>
      rw [pc] at own numbered
      simp only [recvCb, pc]
      exact .of_split (replaced _) (.refl _) own.free
        fun number member => numbered number (List.mem_cons_of_mem _ member)

theorem holds_sendto {data : List UInt8} (holds : Holds state)
    (stepped : step state (.sendto data) = some next) : Holds next := by
  obtain rfl := Option.some.inj stepped
  have fresh : .skb state.skbs ∉ state.held := fun held => Nat.lt_irrefl _ (holds.numbered _ held)
  refine .of_perm ?_ (holds.leaves.alloc rfl fresh) fun number member => ?_
  · rw [State.held, State.held, List.flatMap_append, List.append_assoc]
    exact List.perm_middle.symm
  · rcases List.mem_cons.mp member with same | old
    · obtain rfl := Resource.skb.inj same
      exact Nat.lt_succ_self _
    · exact Nat.lt_succ_of_lt (holds.numbered number old)

theorem Holds.unqueue {dropped kept : List Datagram} (holds : Holds state)
    (perm : state.waiting.Perm (dropped ++ kept)) (calls : next.calls = state.calls)
    (waiting : next.waiting = kept) (setups : next.setups = state.setups)
    (skbs : next.skbs = state.skbs)
    (events : next.events = state.events ++ dropped.map fun datagram => .free (.skb datagram.skb)) :
    Holds next := by
  have split : state.held.Perm (dropped.map (fun datagram => .skb datagram.skb) ++ next.held) := by
    rw [State.held, State.held, calls, State.queued, State.queued, State.parameters, State.parameters,
      waiting, setups]
    refine ((perm.map _).append_right _ |>.append_left _).trans ?_
    rw [List.map_append, List.append_assoc]
    exact List.perm_append_comm_assoc _ _ _
  have freed := (holds.leaves.perm split).free_all
  rw [List.map_map] at freed
  refine ⟨?_, fun number member => ?_⟩
  · rw [events]
    exact freed
  · rw [skbs]
    exact holds.numbered number (split.mem_iff.mpr (List.mem_append_right _ member))

theorem holds_step {action : Action} (holds : Holds state) (stepped : step state action = some next) :
    Holds next := by
  cases action with
  | bind port =>
      simp only [step] at stepped
      split_ifs at stepped
      obtain rfl := Option.some.inj stepped
      exact .of_perm (.refl _) holds.leaves holds.numbered
  | close port =>
      simp only [step] at stepped
      split_ifs at stepped
      obtain rfl := Option.some.inj stepped
      refine holds.unqueue (List.filter_append_perm (·.port = port) state.waiting).symm rfl
        ?_ rfl rfl rfl
      simp
  | sendto data => exact holds_sendto holds stepped
  | run self granted =>
      simp only [step] at stepped
      split at stepped
      · rename_i frame below found
        obtain rfl := Option.some.inj stepped
        exact holds_run holds found
      · simp at stepped
  | recvfrom port =>
      obtain ⟨datagram, found, rfl⟩ := Option.map_eq_some_iff.mp stepped
      have front := List.perm_cons_erase (List.mem_of_find?_eq_some found)
      exact holds.unqueue (List.singleton_append ▸ front) rfl rfl rfl rfl rfl

end

theorem holds_initial : Holds initial :=
  ⟨.start _, by simp [initial, State.held, State.queued, State.parameters]⟩

/-- In every run each buffer is given back at most once and while it is there, and what is allocated
is what the calls and the sockets hold, with one `struct setup_param` for each request that got one:
these alone are left when the calls have returned and no message waits. -/
theorem netlink_keeps_parameters (actions : List Action) : Always step (fun state =>
    ∃ live, run Ledger.step (fun _ => false) state.events = some live ∧
      (∀ resource, live resource = true ↔ resource ∈ state.held) ∧
      ((∀ call ∈ state.calls, call = []) → state.waiting = [] →
        ∀ resource, live resource = true ↔ ∃ number,
          number < state.setups ∧ resource = .setup number))
    initial actions := by
  have holds : Always step Holds initial actions :=
    always_invariant (fun _ _ _ before stepped => holds_step before stepped) holds_initial actions
  refine holds.imp fun state now => ?_
  obtain ⟨live, ran, account⟩ := now.leaves
  have exactly (resource : Resource) : live resource = true ↔ resource ∈ state.held := by
    rw [account.live_iff]
    exact or_iff_right (by simp)
  refine ⟨live, ran, exactly, fun returned empty resource => ?_⟩
  have nothing : state.calls.flatMap callHeld = [] := by
    rw [List.flatMap_eq_nil_iff]
    rintro call member
    rw [returned call member]
    rfl
  rw [exactly, State.held, nothing, State.queued, empty, State.parameters]
  simp [eq_comm]

end LearnK.Netlink
