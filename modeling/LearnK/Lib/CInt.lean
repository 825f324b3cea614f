import Mathlib.Data.Int.Basic
import Mathlib.Order.Defs.LinearOrder

/-! Conversions between C's fixed-width integer types, on `Int` values. -/

namespace CInt

def toU32 (value : Int) : Int := value % 4294967296

def toU64 (value : Int) : Int := value % 18446744073709551616

def toS32 (value : Int) : Int := (value + 2147483648) % 4294967296 - 2147483648

def toS64 (value : Int) : Int := (value + 9223372036854775808) % 18446744073709551616 -
  9223372036854775808

theorem toU32_of_range {value : Int} (nonneg : 0 ≤ value) (small : value < 4294967296) :
    toU32 value = value := by
  unfold toU32
  omega

theorem toU64_of_range {value : Int} (nonneg : 0 ≤ value) (small : value < 18446744073709551616) :
    toU64 value = value := by
  unfold toU64
  omega

theorem toS64_of_range {value : Int} (low : -9223372036854775808 ≤ value)
    (high : value < 9223372036854775808) : toS64 value = value := by
  unfold toS64
  omega

/-- C's signed comparison. -/
instance int32LinearOrder : LinearOrder Int32 where
  le_refl := Int32.le_refl
  le_trans _ _ _ := Int32.le_trans
  le_antisymm _ _ := Int32.le_antisymm
  le_total := Int32.le_total
  lt_iff_le_not_ge first second := by
    rw [Int32.lt_iff_toInt_lt, Int32.le_iff_toInt_le, Int32.le_iff_toInt_le]
    omega
  toDecidableLE := inferInstance
  toDecidableLT := inferInstance
  toDecidableEq := inferInstance

instance uint64LinearOrder : LinearOrder UInt64 where
  le_refl := UInt64.le_refl
  le_trans _ _ _ := UInt64.le_trans
  le_antisymm _ _ := UInt64.le_antisymm
  le_total := UInt64.le_total
  lt_iff_le_not_ge first second := by
    rw [UInt64.lt_iff_toNat_lt, UInt64.le_iff_toNat_le, UInt64.le_iff_toNat_le]
    omega
  toDecidableLE := inferInstance
  toDecidableLT := inferInstance
  toDecidableEq := inferInstance

end CInt
