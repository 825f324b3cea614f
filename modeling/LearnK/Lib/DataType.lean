import Mathlib.Data.List.Forall2
import LearnK.Lib.StepMachine

/-! A client that makes, changes, asks and frees values of a data type through pointers, and what it
takes that one implementation of the type answers every client as another one does. -/

namespace DataType

open StepMachine

/-- `none` is a call that the type does not allow; a `make` that is allowed may still return NULL. -/
structure Operations (Make Change Query Answer Value : Type) where
  make : Make → Option (Option Value)
  change : Value → Change → Option Value
  ask : Value → Query → Option Answer

inductive Handle (Value : Type)
  | null
  | live (value : Value)
  | freed

def Handle.made {Value : Type} : Option Value → Handle Value
  | none => .null
  | some value => .live value

structure Client (Answer Value : Type) where
  handles : List (Handle Value)
  answers : List Answer

inductive Call (Make Change Query : Type)
  | make (arguments : Make)
  | change (self : Nat) (arguments : Change)
  | ask (self : Nat) (query : Query)
  | free (self : Nat)

variable {Make Change Query Answer Value Value' : Type}

def Client.put (client : Client Answer Value) (self : Nat) (handle : Handle Value) :
    Client Answer Value :=
  { client with handles := client.handles.set self handle }

/-- Freeing NULL does nothing; a freed value must not be touched again. -/
def Operations.step (type : Operations Make Change Query Answer Value) (client : Client Answer Value) :
    Call Make Change Query → Option (Client Answer Value)
  | .make arguments => (type.make arguments).map fun value =>
      { client with handles := client.handles ++ [.made value] }
  | .change self arguments =>
      match client.handles[self]? with
      | some (.live value) => (type.change value arguments).map fun next => client.put self (.live next)
      | _ => none
  | .ask self query =>
      match client.handles[self]? with
      | some (.live value) => (type.ask value query).map fun answer =>
          { client with answers := client.answers ++ [answer] }
      | _ => none
  | .free self =>
      match client.handles[self]? with
      | some .null => some client
      | some (.live _) => some (client.put self .freed)
      | _ => none

inductive Handle.Matches (Holds : Value → Value' → Prop) : Handle Value → Handle Value' → Prop
  | null : Matches Holds .null .null
  | live {value value'} (holds : Holds value value') : Matches Holds (.live value) (.live value')
  | freed : Matches Holds .freed .freed

structure Client.Matches (Holds : Value → Value' → Prop) (client : Client Answer Value)
    (client' : Client Answer Value') : Prop where
  handles : List.Forall₂ (Handle.Matches Holds) client.handles client'.handles
  answers : client.answers = client'.answers

/-- The first type does what the second one does wherever the second one allows the call. -/
structure Operations.Refines (Holds : Value → Value' → Prop)
    (concrete : Operations Make Change Query Answer Value)
    (abstract : Operations Make Change Query Answer Value') : Prop where
  make : ∀ arguments made', abstract.make arguments = some made' →
    ∃ made, concrete.make arguments = some made ∧ Option.Rel Holds made made'
  change : ∀ value value' arguments next', Holds value value' →
    abstract.change value' arguments = some next' →
      ∃ next, concrete.change value arguments = some next ∧ Holds next next'
  ask : ∀ value value' query answer, Holds value value' →
    abstract.ask value' query = some answer → concrete.ask value query = some answer

section

variable {Holds : Value → Value' → Prop}

theorem Handle.matches_made {made : Option Value} {made' : Option Value'}
    (holds : Option.Rel Holds made made') : Handle.Matches Holds (.made made) (.made made') := by
  cases holds with
  | some holds => exact .live holds
  | none => exact .null

theorem forall₂_set {α β : Type} {Related : α → β → Prop} {first : List α} {second : List β}
    {entry : α} {entry' : β} (related : List.Forall₂ Related first second) (self : Nat)
    (here : Related entry entry') :
    List.Forall₂ Related (first.set self entry) (second.set self entry') := by
  induction related generalizing self with
  | nil => exact .nil
  | cons head tail ih =>
      cases self with
      | zero => exact .cons here tail
      | succ self => exact .cons head (ih self)

theorem forall₂_getElem? {α β : Type} {Related : α → β → Prop} {first : List α} {second : List β}
    (related : List.Forall₂ Related first second) {self : Nat} {entry' : β}
    (found : second[self]? = some entry') :
    ∃ entry, first[self]? = some entry ∧ Related entry entry' := by
  induction related generalizing self with
  | nil => simp at found
  | cons head tail ih =>
      cases self with
      | zero =>
          obtain rfl := Option.some.inj found
          exact ⟨_, rfl, head⟩
      | succ self => exact ih found

variable {client : Client Answer Value} {client' : Client Answer Value'}

theorem Client.Matches.put (matching : client.Matches Holds client') (self : Nat)
    {handle : Handle Value} {handle' : Handle Value'} (here : Handle.Matches Holds handle handle') :
    (client.put self handle).Matches Holds (client'.put self handle') :=
  ⟨forall₂_set matching.handles self here, matching.answers⟩

theorem Client.Matches.live (matching : client.Matches Holds client') {self : Nat} {value' : Value'}
    (found : client'.handles[self]? = some (.live value')) :
    ∃ value, client.handles[self]? = some (.live value) ∧ Holds value value' := by
  obtain ⟨handle, same, related⟩ := forall₂_getElem? matching.handles found
  cases related with
  | live holds => exact ⟨_, same, holds⟩

variable {concrete : Operations Make Change Query Answer Value}
  {abstract : Operations Make Change Query Answer Value'}

theorem Operations.Refines.step (refines : concrete.Refines Holds abstract)
    (matching : client.Matches Holds client') {call : Call Make Change Query}
    {next' : Client Answer Value'} (stepped : abstract.step client' call = some next') :
    ∃ next, concrete.step client call = some next ∧ next.Matches Holds next' := by
  cases call with
  | make arguments =>
      obtain ⟨made', allowed, rfl⟩ := Option.map_eq_some_iff.mp stepped
      obtain ⟨made, returned, holds⟩ := refines.make arguments made' allowed
      refine ⟨_, congrArg (Option.map _) returned, ?_, matching.answers⟩
      exact List.rel_append matching.handles (.cons (Handle.matches_made holds) .nil)
  | change self arguments =>
      simp only [Operations.step] at stepped ⊢
      split at stepped
      · rename_i value' found
        obtain ⟨after', allowed, rfl⟩ := Option.map_eq_some_iff.mp stepped
        obtain ⟨value, same, holds⟩ := matching.live found
        obtain ⟨after, changed, holds'⟩ := refines.change value value' arguments after' holds allowed
        rw [same]
        exact ⟨_, congrArg (Option.map _) changed, matching.put self (.live holds')⟩
      · simp at stepped
  | ask self query =>
      simp only [Operations.step] at stepped ⊢
      split at stepped
      · rename_i value' found
        obtain ⟨answer, allowed, rfl⟩ := Option.map_eq_some_iff.mp stepped
        obtain ⟨value, same, holds⟩ := matching.live found
        have asked := refines.ask value value' query answer holds allowed
        rw [same]
        refine ⟨_, congrArg (Option.map _) asked, matching.handles, ?_⟩
        exact congrArg (· ++ [answer]) matching.answers
      · simp at stepped
  | free self =>
      simp only [Operations.step] at stepped ⊢
      split at stepped
      · rename_i found
        obtain rfl := Option.some.inj stepped
        obtain ⟨handle, same, related⟩ := forall₂_getElem? matching.handles found
        cases related with
        | null =>
            rw [same]
            exact ⟨_, rfl, matching⟩
      · rename_i value' found
        obtain rfl := Option.some.inj stepped
        obtain ⟨value, same, -⟩ := matching.live found
        rw [same]
        exact ⟨_, rfl, matching.put self .freed⟩
      · simp at stepped

/-- Whatever a client does that the second type allows, the first type allows, and answers alike. -/
theorem Operations.Refines.run (refines : concrete.Refines Holds abstract)
    {calls : List (Call Make Change Query)} {final' : Client Answer Value'}
    (ran : StepMachine.run abstract.step ⟨[], []⟩ calls = some final') :
    ∃ final, StepMachine.run concrete.step ⟨[], []⟩ calls = some final ∧ final.Matches Holds final' := by
  have begins : (Client.mk [] [] : Client Answer Value).Matches Holds (⟨[], []⟩ : Client Answer Value') :=
    ⟨.nil, rfl⟩
  generalize (Client.mk [] [] : Client Answer Value) = client at begins ⊢
  generalize (Client.mk [] [] : Client Answer Value') = client' at begins ran
  induction calls generalizing client client' with
  | nil =>
      obtain rfl := Option.some.inj ran
      exact ⟨client, rfl, begins⟩
  | cons call rest ih =>
      obtain ⟨middle', stepped, remaining⟩ := run_cons_some ran
      obtain ⟨middle, followed, matching⟩ := refines.step begins stepped
      obtain ⟨final, finished, related⟩ := ih middle middle' matching remaining
      refine ⟨final, ?_, related⟩
      rw [run_cons, followed]
      exact finished

end

end DataType
