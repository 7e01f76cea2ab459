import Mathlib.Algebra.Ring.Int.Defs
import Mathlib.Data.Int.Order.Lemmas

/-!
# The integers of C++

The integer types with the widths of a 64-bit Linux, and the conversions that the code makes.
-/

namespace TinyNetwork

/-- An `int` converted to `size_t`. -/
def toSizeT (n : ℤ) : ℕ := (n % 2 ^ 64).toNat

inductive IntegerType
  | short
  | unsignedShort
  | int
  | unsignedInt
  | long
  | unsignedLong
  | longLong
  | unsignedLongLong
  deriving DecidableEq

namespace IntegerType

def width : IntegerType → ℕ
  | short | unsignedShort => 16
  | int | unsignedInt => 32
  | long | unsignedLong | longLong | unsignedLongLong => 64

def signed : IntegerType → Bool
  | short | int | long | longLong => true
  | unsignedShort | unsignedInt | unsignedLong | unsignedLongLong => false

def minValue (T : IntegerType) : ℤ := if T.signed then -2 ^ (T.width - 1) else 0

def maxValue (T : IntegerType) : ℤ := if T.signed then 2 ^ (T.width - 1) - 1 else 2 ^ T.width - 1

/-- Conversion to the type; a signed overflow wraps. -/
def wrap (T : IntegerType) (v : ℤ) : ℤ :=
  if T.signed then v.bmod (2 ^ T.width) else v % 2 ^ T.width

/-- A value of the type. -/
structure Value (T : IntegerType) where
  val : ℤ
  min_le : T.minValue ≤ val
  le_max : val ≤ T.maxValue

/-- A value of the type is not changed. -/
theorem wrap_of_fits {T : IntegerType} {v : ℤ} (hmin : T.minValue ≤ v) (hmax : v ≤ T.maxValue) :
    T.wrap v = v := by
  cases T <;> simp only [minValue, maxValue, wrap, signed, width, if_true, Bool.false_eq_true,
    if_false] at hmin hmax ⊢
  case short | int | long | longLong => exact Int.bmod_eq_of_le (by omega) (by omega)
  all_goals exact Int.emod_eq_of_lt hmin (by omega)

theorem minValue_nonpos (T : IntegerType) : T.minValue ≤ 0 := by cases T <;> decide

/-- The negation of every value but the least one is a value. -/
theorem neg_minValue_le (T : IntegerType) : -T.minValue ≤ T.maxValue + 1 := by cases T <;> decide

/-- A conversion gives a value of the type. -/
theorem wrap_le_max (T : IntegerType) (v : ℤ) : T.wrap v ≤ T.maxValue := by
  cases T <;> simp only [maxValue, wrap, signed, width, if_true, Bool.false_eq_true, if_false]
  case short | int | long | longLong => exact Int.le_of_lt_add_one (Int.bmod_lt (by omega))
  all_goals exact Int.le_sub_one_of_lt (Int.emod_lt_of_pos v (by omega))

theorem minValue_le_wrap (T : IntegerType) (v : ℤ) : T.minValue ≤ T.wrap v := by
  cases T <;> simp only [minValue, wrap, signed, width, if_true, Bool.false_eq_true, if_false]
  case short | int | long | longLong => exact Int.le_bmod (by omega)
  all_goals exact Int.emod_nonneg v (by omega)

/-- Conversion to the type, with the value in its range. -/
def convert (T : IntegerType) (v : ℤ) : T.Value := ⟨T.wrap v, T.minValue_le_wrap v, T.wrap_le_max v⟩

end IntegerType

/-- `static_cast<int>`. -/
def toInt (n : ℤ) : ℤ := IntegerType.int.wrap n

@[simp] theorem val_convert_int (n : ℤ) : (IntegerType.int.convert n).val = toInt n := rfl

theorem toSizeT_of_nonneg {n : ℤ} (h : 0 ≤ n) (hlt : n < 2 ^ 64) : toSizeT n = n.toNat := by
  rw [toSizeT, Int.emod_eq_of_lt h hlt]

/-- A negative number is converted to a huge one. -/
theorem le_toSizeT_of_neg {n : ℤ} (h : n < 0) (hmin : -2 ^ 31 ≤ n) : 2 ^ 31 ≤ toSizeT n := by
  unfold toSizeT
  omega

theorem toInt_of_fits {n : ℤ} (h : -2 ^ 31 ≤ n) (hlt : n < 2 ^ 31) : toInt n = n :=
  IntegerType.wrap_of_fits h (Int.le_sub_one_of_lt hlt)

theorem toInt_natCast_le (n : ℕ) : toInt n ≤ n := by
  have hmod : (n : ℤ) % (2 ^ 32 : ℕ) ≤ n := by exact_mod_cast Nat.mod_le n (2 ^ 32)
  unfold toInt IntegerType.wrap
  simp only [IntegerType.signed, if_true, IntegerType.width]
  rw [Int.bmod_eq_emod]
  split_ifs <;> omega

end TinyNetwork
