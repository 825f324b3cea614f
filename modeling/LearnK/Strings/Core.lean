import LearnK.Lib.CString
import LearnK.Lib.CInt

/-!
The growable string (`string/main.c`).  `len` is an `unsigned int`, `cap` an `unsigned
long`; the character buffer keeps the size it was allocated with, and every store into it
is logged with that size.
-/

namespace LearnK.Strings

open ByteMemory CInt CString

def stringCap : UInt64 := 64

/-- A block from `kmalloc` or `krealloc`; `data` runs past `size` into whatever lies there. -/
structure Buffer where
  data : Nat → UInt8
  size : Nat

structure Store where
  start : Nat
  length : Nat
  size : Nat
  deriving DecidableEq, Repr

/-- `struct string_view`; `str` is `none` for a NULL pointer. -/
structure StringView where
  str : Option Buffer
  len : Nat
  cap : Nat
  stores : List Store

inductive Fault
  | diverges
  | nullPointer
  deriving DecidableEq, Repr

/-- `kmallocView` and `kmallocStr` are the answers of the two allocations; the second comes with
the bytes it happens to hold. -/
def stringNewCap (kmallocView : Bool) (kmallocStr : Option (Nat → UInt8)) (str : Text)
    (cap : UInt64) : Option StringView :=
  let len := toS32 str.strlen
  if toU64 len > cap.toNat then none
  else if !kmallocView then none
  else kmallocStr.map fun garbage =>
    let sLen := (toU32 len).toNat
    let sCap := cap.toNat
    let copied := blit garbage 0 (strncpyBytes str sLen)
    ⟨some ⟨blit copied sLen [0], sCap⟩, sLen, sCap, [⟨0, sLen, sCap⟩, ⟨sLen, 1, sCap⟩]⟩

def stringNew (kmallocView : Bool) (kmallocStr : Option (Nat → UInt8)) (str : Text) :
    Option StringView :=
  stringNewCap kmallocView kmallocStr str stringCap

/-- One round of the loop in `string_growup`.  `do_div(s->cap, n)` leaves the quotient in `s->cap`
and yields the remainder, which is then added. -/
def growStep (cap : Nat) : Nat :=
  if cap ≤ 4096 then cap + cap
  else if cap ≤ 8192 then cap / 2 + cap % 2
  else cap / 4 + cap % 4

def growLoop (request : Nat) : Nat → Nat → Option Nat
  | 0, _ => none
  | fuel + 1, cap => if request ≥ cap then growLoop request fuel (growStep cap) else some cap

def stringGrowup (fuel : Nat) (krealloc : Option (Nat → UInt8)) (s : StringView) (cap : Nat) :
    Except Fault StringView :=
  match growLoop cap fuel s.cap with
  | none => .error .diverges
  | some grown =>
      if cap ≥ s.cap then
        .ok { s with
          str := krealloc.map fun garbage =>
            ⟨fun index => match s.str with
              | some old => if index < min old.size grown then old.data index else garbage index
              | none => garbage index, grown⟩
          cap := grown }
      else .ok { s with cap := grown }

def joinAppend (fuel : Nat) (s : StringView) (str : Text) : Except Fault StringView :=
  match s.str with
  | none => .error .nullPointer
  | some buffer =>
      match nulIndex buffer.data fuel 0 with
      | none => .error .diverges
      | some nul =>
          let appended := strncatBytes str (toU64 (s.cap - s.len)).toNat
          let newLen := (toU32 (s.len + toU32 str.strlen)).toNat
          .ok { s with
            str := some ⟨blit (blit buffer.data nul appended) newLen [0], buffer.size⟩
            len := newLen
            stores := s.stores ++ [⟨nul, appended.length, buffer.size⟩, ⟨newLen, 1, buffer.size⟩] }

def stringJoin (fuel : Nat) (krealloc : Option (Nat → UInt8)) (s : StringView) (str : Text) :
    Except Fault StringView :=
  let request := (toU32 (s.len + toU32 str.strlen)).toNat
  let roomy := if request ≥ s.cap then stringGrowup fuel krealloc s request else .ok s
  roomy.bind fun s => joinAppend fuel s str

def StringView.read (s : StringView) : Window := fun offset =>
  s.str.bind fun buffer =>
    if 0 ≤ offset ∧ offset < buffer.size then some (buffer.data offset.toNat) else none

def indexLoop (s : StringView) (str : Text) (len : Int) : Nat → Int → Option Int
  | 0, _ => some (-1)
  | left + 1, i => (strncmp s.read i str.chars (toU64 len).toNat).bind fun order =>
      if order = 0 then some i else indexLoop s str len left (toS32 (i + 1))

/-- The observers return `none` where they read outside the block. -/
def stringIndex (s : StringView) (str : Text) : Option Int :=
  let len := toS32 str.strlen
  if toU32 len > s.len then some (-1)
  else indexLoop s str len ((toU32 (s.len - len)).toNat + 1) 0

def lastIndexLoop (s : StringView) (str : Text) (len : Int) : Nat → Option Int
  | 0 => some (-1)
  | i + 1 => (strncmp s.read i str.chars (toU64 len).toNat).bind fun order =>
      if order = 0 then some i else lastIndexLoop s str len i

def stringLastIndex (s : StringView) (str : Text) : Option Int :=
  let len := toS32 str.strlen
  if toU32 len > s.len then some (-1)
  else lastIndexLoop s str len (toS32 (s.len - len) + 1).toNat

def stringLen (s : StringView) : Int := toS32 s.len

def stringChar (kmalloc : Option (Nat → UInt8)) (s : StringView) : Option (Option Buffer) :=
  match kmalloc with
  | none => some none
  | some garbage => (strncpy s.read 0 s.len).map fun copied =>
      some ⟨blit (blit garbage 0 copied) s.len [0], (toU32 (s.len + 1)).toNat⟩

def stringHasPrefix (s : StringView) (str : Text) : Option Bool :=
  let len := toS32 str.strlen
  if toU32 len > s.len then some false
  else (strncmp s.read 0 str.chars (toU64 len).toNat).map (· == 0)

def stringHasSuffix (s : StringView) (suffix : Text) : Option Bool :=
  let len := toS32 suffix.strlen
  if toU32 len > s.len then some false
  else (strncmp s.read (s.len - len) suffix.chars (toU64 len).toNat).map (· == 0)

/-- `strstr` scans `s->str` for its NUL, at most to the end of the block. -/
def stringHasSubstring (s : StringView) (substr : Text) : Option Bool :=
  let len := toS32 substr.strlen
  if toU32 len > s.len then some false
  else (strstr s.read (s.str.elim 0 Buffer.size + 1) substr).map Option.isSome

/-- `end - start + 1` is an `int` that `kmalloc` takes as a `size_t`. -/
def stringSubstring (kmalloc : Option (Nat → UInt8)) (s : StringView) (start stop : Int32) :
    Option (Option Buffer) :=
  if start.toInt < 0 ∨ toU32 stop.toInt > s.len ∨ start.toInt ≥ stop.toInt then some none
  else
    match kmalloc with
    | none => some none
    | some garbage =>
        let count := toS32 (stop.toInt - start.toInt)
        (strncpy s.read start.toInt (toU64 count).toNat).map fun copied =>
          some ⟨blit (blit garbage 0 copied) count.toNat [0], (toU64 (toS32 (count + 1))).toNat⟩

structure Join where
  fuel : Nat
  krealloc : Option (Nat → UInt8)
  str : Text

def joinAll : StringView → List Join → Except Fault StringView
  | s, [] => .ok s
  | s, join :: rest =>
      (stringJoin join.fuel join.krealloc s join.str).bind fun s => joinAll s rest

end LearnK.Strings
