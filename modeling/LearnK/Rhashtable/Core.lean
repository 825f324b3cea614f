import LearnK.Lib.Ledger
import Mathlib.Data.List.Perm.Basic

/-!
The hash table module (`rhashtable/main.c`).  The kernel's rhashtable is a parameter, known by the
entries that are linked in it; what `kzalloc` and `rhashtable_insert_fast` answer is another one.
-/

namespace LearnK.Rhashtable

open Function Ledger

abbrev Addr := Nat

structure HashEntry where
  key : UInt32
  value : UInt64
  deriving DecidableEq, Repr

/-- The routines of the kernel's `rhashtable.h` that the module calls, with what it relies on. -/
structure RhashRoutines (Table : Type) where
  nodes : Table → List Addr
  empty : Table
  insertFast : (Addr → UInt32) → Addr → Table → Table
  lookup : (Addr → UInt32) → UInt32 → Table → Option Addr
  removeFast : Addr → Table → Table
  empty_nodes : nodes empty = []
  insertFast_nodes : ∀ keyAt entry table, entry ∉ nodes table →
    (nodes (insertFast keyAt entry table)).Perm (entry :: nodes table)
  lookup_some : ∀ keyAt key table entry, lookup keyAt key table = some entry →
    entry ∈ nodes table ∧ keyAt entry = key
  lookup_none : ∀ keyAt key table, lookup keyAt key table = none →
    ∀ entry ∈ nodes table, keyAt entry ≠ key
  removeFast_nodes : ∀ entry table, (nodes table).Nodup → entry ∈ nodes table →
    (nodes (removeFast entry table)).Perm ((nodes table).erase entry)

inductive Message
  | initReturns (ret : Int)
  | kzallocNull
  | insertReturns (ret : Int)
  | lookupFastNull
  | lookupNull
  | wrongValue (key : UInt32) (value : UInt64)
  | remove (key : UInt32) (value : UInt64)
  deriving DecidableEq, Repr

/-- The answers of the kernel: an entry for the `i`-th `kzalloc`, and what the `i`-th insertion
returns. -/
structure Answers where
  init : Int
  kzalloc : Nat → Option Addr
  insert : Nat → Int

variable {Table : Type}

structure State (Table : Type) where
  rht : Table
  entries : Addr → HashEntry
  events : List (Event Addr)
  log : List Message

def State.say (state : State Table) (message : Message) : State Table :=
  { state with log := state.log ++ [message] }

def State.keyAt (state : State Table) (entry : Addr) : UInt32 := (state.entries entry).key

def valueOf (i : Nat) : UInt64 := UInt64.ofNat i * UInt64.ofNat i

def insertLoop (routines : RhashRoutines Table) (answers : Answers) :
    Nat → Nat → State Table → State Table × Bool
  | 0, _, state => (state, true)
  | remaining + 1, i, state =>
      match answers.kzalloc i with
      | none => (state.say .kzallocNull, false)
      | some entry =>
          let filled := { state with
            entries := update state.entries entry ⟨UInt32.ofNat i, valueOf i⟩
            events := state.events ++ [Event.alloc entry] }
          if answers.insert i < 0 then
            ({ filled with events := filled.events ++ [Event.free entry] }.say
              (.insertReturns (answers.insert i)),
              false)
          else
            insertLoop routines answers remaining (i + 1)
              { filled with rht := routines.insertFast filled.keyAt entry filled.rht }

/-- The second loop: one lookup without and one under the read lock. -/
def lookupLoop (routines : RhashRoutines Table) : Nat → Nat → State Table → State Table × Bool
  | 0, _, state => (state, true)
  | remaining + 1, i, state =>
      match routines.lookup state.keyAt (UInt32.ofNat i) state.rht with
      | none => (state.say .lookupFastNull, false)
      | some entry =>
          if (state.entries entry).value ≠ valueOf i then
            (state.say (.wrongValue (UInt32.ofNat i) (state.entries entry).value), false)
          else
            match routines.lookup state.keyAt (UInt32.ofNat i) state.rht with
            | none => (state.say .lookupNull, false)
            | some entry =>
                if (state.entries entry).value ≠ valueOf i then
                  (state.say (.wrongValue (UInt32.ofNat i) (state.entries entry).value), false)
                else lookupLoop routines remaining (i + 1) state

def removeEntry (routines : RhashRoutines Table) (key : UInt32) (state : State Table) : State Table :=
  match routines.lookup state.keyAt key state.rht with
  | none => state.say .lookupNull
  | some entry =>
      { state.say (.remove key (state.entries entry).value) with
        rht := routines.removeFast entry state.rht }

def freeAndDestroy (routines : RhashRoutines Table) (state : State Table) : State Table :=
  { state with events := state.events ++ (routines.nodes state.rht).map .free }

def entryCount : Nat := 1000

def startInit (routines : RhashRoutines Table) (answers : Answers) (entries : Addr → HashEntry) :
    Int × State Table :=
  let state : State Table := ⟨routines.empty, entries, [], [.initReturns answers.init]⟩
  if answers.init < 0 then (answers.init, state)
  else
    match insertLoop routines answers entryCount 0 state with
    | (state, false) => (0, freeAndDestroy routines state)
    | (state, true) =>
        match lookupLoop routines entryCount 0 state with
        | (state, false) => (0, freeAndDestroy routines state)
        | (state, true) => (0, freeAndDestroy routines (removeEntry routines 1 state))

end LearnK.Rhashtable
