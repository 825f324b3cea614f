import LearnK.Cdev.Core
import LearnK.GlobalFifo.Core

/-! Seeking in the two devices that have a `hello_llseek`.  A seek from the start is checked after
its offset has been cut down to 32 bits, a seek from the position on a sum that wraps at 64. -/

namespace LearnK.Cdev

open CInt

inductive Device
  | cdev
  | globalfifo
  deriving DecidableEq, Repr

def Device.helloLlseek : Device → Int → Int → Int → Int × Int
  | .cdev => Cdev.helloLlseek
  | .globalfifo => GlobalFifo.helloLlseek

inductive Whence
  | set
  | cur
  deriving DecidableEq, Repr

def Whence.orig : Whence → Int
  | .set => 0
  | .cur => 1

structure Seek where
  offset : Int64
  whence : Whence
  deriving DecidableEq, Repr

def Seek.target (fpos : Int) (seek : Seek) : Int :=
  match seek.whence with
  | .set => seek.offset.toInt
  | .cur => fpos + seek.offset.toInt

def land (fpos target : Int) : Int × Int :=
  if 0 ≤ target ∧ target ≤ hellodevSize then (target, target) else (-einval, fpos)

def Seek.expected (fpos : Int) (seek : Seek) : Int × Int := land fpos (seek.target fpos)

def seekAll (device : Device) : Int → List Seek → List (Int × Int)
  | _, [] => []
  | fpos, seek :: rest =>
      let result := device.helloLlseek fpos seek.offset.toInt seek.whence.orig
      result :: seekAll device result.2 rest

def expectedAll : Int → List Seek → List (Int × Int)
  | _, [] => []
  | fpos, seek :: rest => seek.expected fpos :: expectedAll (seek.expected fpos).2 rest

/-- An offset from the start that is too large and looks valid in its low 32 bits. -/
def Seek.Aliases (seek : Seek) : Prop :=
  seek.whence = .set ∧ 4294967296 ≤ seek.offset.toInt ∧ seek.offset.toInt % 4294967296 ≤ hellodevSize

instance (seek : Seek) : Decidable seek.Aliases := inferInstanceAs (Decidable (_ ∧ _))

theorem Device.helloLlseek_eq (device : Device) : device.helloLlseek = Cdev.helloLlseek := by
  cases device <;> rfl

theorem helloLlseek_set_iff (fpos value : Int) :
    Cdev.helloLlseek fpos value 0 = land fpos value ↔
      ¬(4294967296 ≤ value ∧ value % 4294967296 ≤ hellodevSize) := by
  have size : (hellodevSize : Int) = 4096 := rfl
  have low : toU32 value = value % 4294967296 := rfl
  simp only [helloLlseek, land, if_true]
  by_cases negative : value < 0
  · rw [if_pos negative, if_neg (by omega)]
    exact iff_of_true rfl (by omega)
  · rw [if_neg negative]
    by_cases narrow : value < 4294967296
    · rw [toU32_of_range (by omega) narrow]
      refine iff_of_true ?_ (by omega)
      by_cases beyond : value > hellodevSize
      · rw [if_pos beyond, if_neg (by omega)]
      · rw [if_neg beyond, if_pos (by omega)]
    · have beyond : ¬(0 ≤ value ∧ value ≤ hellodevSize) := by omega
      rw [if_neg beyond]
      by_cases small : toU32 value > hellodevSize
      · rw [if_pos small]
        exact iff_of_true rfl (by omega)
      · rw [if_neg small]
        refine iff_of_false ?_ (by omega)
        intro same
        have returned : toU32 value = -einval := congrArg Prod.fst same
        have code : einval = 22 := rfl
        omega

theorem helloLlseek_cur {fpos value : Int} (low : 0 ≤ fpos) (high : fpos ≤ hellodevSize)
    (least : -9223372036854775808 ≤ value) (greatest : value < 9223372036854775808) :
    Cdev.helloLlseek fpos value 1 = land fpos (fpos + value) := by
  have size : (hellodevSize : Int) = 4096 := rfl
  have other : ¬(1 : Int) = 0 := by decide
  simp only [helloLlseek, land, if_neg other, if_true]
  by_cases wraps : fpos + value < 9223372036854775808
  · rw [toS64_of_range (by omega) wraps]
    by_cases beyond : fpos + value > hellodevSize
    · rw [if_pos beyond, if_neg (by omega)]
    · by_cases negative : fpos + value < 0
      · rw [if_neg beyond, if_pos negative, if_neg (by omega)]
      · rw [if_neg beyond, if_neg negative, if_pos (by omega)]
  · -- the sum comes out negative, so the second check refuses it
    have wrapped : toS64 (fpos + value) = fpos + value - 18446744073709551616 := by
      unfold toS64
      omega
    rw [wrapped, if_neg (by omega), if_pos (by omega), if_neg (by omega)]

theorem Seek.expected_range {fpos : Int} (low : 0 ≤ fpos) (high : fpos ≤ hellodevSize) (seek : Seek) :
    0 ≤ (seek.expected fpos).2 ∧ (seek.expected fpos).2 ≤ hellodevSize := by
  unfold Seek.expected land
  split
  · assumption
  · exact ⟨low, high⟩

theorem seek_exact_iff {fpos : Int} (low : 0 ≤ fpos) (high : fpos ≤ hellodevSize) (seek : Seek) :
    Cdev.helloLlseek fpos seek.offset.toInt seek.whence.orig = seek.expected fpos ↔
      ¬seek.Aliases := by
  obtain ⟨offset, whence⟩ := seek
  cases whence with
  | set =>
      refine (helloLlseek_set_iff fpos offset.toInt).trans (not_congr ?_)
      simp [Seek.Aliases]
  | cur =>
      refine iff_of_true ?_ (by simp [Seek.Aliases])
      exact helloLlseek_cur low high offset.le_toInt offset.toInt_lt

/-- A sequence of seeks accepts the valid targets and no others exactly when none of its offsets
from the start is a small one plus a multiple of 2^32. -/
theorem helloLlseek_exact_iff (device : Device) (fpos : Int) (low : 0 ≤ fpos)
    (high : fpos ≤ hellodevSize) (seeks : List Seek) :
    seekAll device fpos seeks = expectedAll fpos seeks ↔ ∀ seek ∈ seeks, ¬seek.Aliases := by
  induction seeks generalizing fpos with
  | nil => simp [seekAll, expectedAll]
  | cons seek rest ih =>
      obtain ⟨low', high'⟩ := seek.expected_range low high
      rw [seekAll, expectedAll, device.helloLlseek_eq, List.cons.injEq, List.forall_mem_cons,
        ← seek_exact_iff low high seek, ← ih _ low' high']
      constructor
      · rintro ⟨same, later⟩
        rw [same] at later
        exact ⟨same, later⟩
      · rintro ⟨same, later⟩
        rw [same]
        exact ⟨rfl, later⟩

theorem helloLlseek_exact_iff_there_and_back :
    seekAll .globalfifo 0 [⟨4096, .set⟩, ⟨1, .cur⟩, ⟨-96, .cur⟩] =
      [(4096, 4096), (-einval, 4096), (4000, 4000)] ∧
    seekAll .globalfifo 0 [⟨4096, .set⟩, ⟨1, .cur⟩, ⟨-96, .cur⟩] =
      expectedAll 0 [⟨4096, .set⟩, ⟨1, .cur⟩, ⟨-96, .cur⟩] :=
  ⟨by decide, (helloLlseek_exact_iff .globalfifo 0 (by decide) (by decide) _).mpr (by decide)⟩

theorem helloLlseek_accepts_truncated :
    seekAll .cdev 7 [⟨4294967296, .set⟩] = [(0, 0)] ∧
      seekAll .globalfifo 7 [⟨4294967296, .set⟩] = [(0, 0)] ∧
      expectedAll 7 [⟨4294967296, .set⟩] = [(-einval, 7)] := by
  decide

end LearnK.Cdev
