import Mathlib.Data.UInt
import Mathlib.Data.List.Basic
import Mathlib.Data.Nat.Digits.Defs

/-!
# Byte strings and decimal renderings

`Bytes` stands for a C++ string or character range.  `decimal` is what `%d` and `%u` print for a
number that is not negative; `parseDecimal` reads it back, so distinct numbers have distinct
renderings (`decimal_injective`), and a bound on the number bounds the width
(`length_decimal_le`).  `decimalInt` is `%d` for any number, read back by `parseDecimalInt`, and
`snprintf` cuts what was printed to the size of an array.
-/

/-- A byte string. -/
abbrev Bytes := List UInt8

namespace Bytes

/-- The byte of a character of the ASCII range. -/
def ofChar (c : Char) : UInt8 := c.toNat.toUInt8

/-- The bytes of a literal. -/
def ascii (s : String) : Bytes := s.toList.map ofChar

/-- The decimal rendering of a number. -/
def decimal (n : ℕ) : Bytes := (Nat.toDigits 10 n).map ofChar

/-- The decimal rendering of a signed number. -/
def decimalInt (n : ℤ) : Bytes :=
  if n < 0 then ascii "-" ++ decimal n.natAbs else decimal n.natAbs

/-- The string that `snprintf` leaves in an array of `size` bytes. -/
def snprintf (size : ℕ) (bs : Bytes) : Bytes := bs.take (size - 1)

/-- Read a decimal rendering. -/
def parseDecimal (bs : Bytes) : ℕ :=
  Nat.ofDigitChars 10 (bs.map fun b => Char.ofNat b.toNat) 0

theorem ofNat_ofChar {c : Char} (h : c.isDigit = true) : Char.ofNat (ofChar c).toNat = c := by
  have hc : c.toNat < 256 := by
    simp only [Char.isDigit, Bool.and_eq_true, decide_eq_true_eq] at h
    have h2 : c.val.toNat ≤ 57 := h.2
    have h3 : c.toNat = c.val.toNat := rfl
    omega
  rw [ofChar, show c.toNat.toUInt8.toNat = c.toNat from UInt8.toNat_ofNat_of_lt' hc,
    Char.ofNat_toNat]

/-- Reading undoes rendering. -/
@[simp] theorem parseDecimal_decimal (n : ℕ) : parseDecimal (decimal n) = n := by
  have hid : ((Nat.toDigits 10 n).map ofChar).map (fun b => Char.ofNat b.toNat) =
      Nat.toDigits 10 n := by
    rw [List.map_map]
    refine (List.map_congr_left fun c hc => ?_).trans (List.map_id _)
    exact ofNat_ofChar (Nat.isDigit_of_mem_toDigits (by omega) (by omega) hc)
  rw [parseDecimal, decimal, hid, Nat.ofDigitChars_ten_toDigits]

theorem decimal_injective : Function.Injective decimal := fun m n h => by
  rw [← parseDecimal_decimal m, h, parseDecimal_decimal]

/-- What is printed for a number are digits. -/
theorem notMem_decimal {b : UInt8} (hb : (Char.ofNat b.toNat).isDigit = false) (n : ℕ) :
    b ∉ decimal n := by
  intro hmem
  obtain ⟨c, hc, rfl⟩ := List.mem_map.1 hmem
  have hdigit : c.isDigit = true := Nat.isDigit_of_mem_toDigits (by omega) (by omega) hc
  rw [ofNat_ofChar hdigit, hdigit] at hb
  cases hb

/-- The digits in front of the last one, and the last one. -/
theorem decimal_eq (n : ℕ) :
    decimal n = (if n < 10 then [] else decimal (n / 10)) ++ [ofChar (n % 10).digitChar] := by
  rw [decimal, Nat.toDigits_eq_if (by omega)]
  split_ifs with h
  · rw [Nat.mod_eq_of_lt h]
    rfl
  · exact List.map_append

theorem length_decimal_le {n k : ℕ} (hk : 0 < k) (h : n < 10 ^ k) : (decimal n).length ≤ k := by
  rw [decimal, List.length_map]
  exact (Nat.length_toDigits_le_iff (by omega) hk).2 h

@[simp] theorem decimalInt_natCast (n : ℕ) : decimalInt n = decimal n := by
  rw [decimalInt, if_neg (by omega), Int.natAbs_natCast]

/-- Read the rendering of a signed number. -/
def parseDecimalInt (bs : Bytes) : ℤ :=
  match bs with
  | [] => 0
  | b :: rest => if b = 45 then -parseDecimal rest else parseDecimal (b :: rest)

/-- Reading undoes rendering, with the sign. -/
@[simp] theorem parseDecimalInt_decimalInt (n : ℤ) : parseDecimalInt (decimalInt n) = n := by
  unfold decimalInt
  split_ifs with hneg
  · show -(parseDecimal (decimal n.natAbs) : ℤ) = n
    rw [parseDecimal_decimal]
    omega
  · cases hbs : decimal n.natAbs with
    | nil =>
      rw [decimal_eq] at hbs
      simp at hbs
    | cons b rest =>
      have hne : b ≠ 45 := by
        rintro rfl
        have hnot : (45 : UInt8) ∉ decimal n.natAbs := notMem_decimal (by decide) _
        rw [hbs] at hnot
        exact hnot List.mem_cons_self
      rw [parseDecimalInt, if_neg hne, ← hbs, parseDecimal_decimal]
      omega

theorem snprintf_of_lt {size : ℕ} {bs : Bytes} (h : bs.length < size) : snprintf size bs = bs :=
  List.take_of_length_le (by omega)

end Bytes
