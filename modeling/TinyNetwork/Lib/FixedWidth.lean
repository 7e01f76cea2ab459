import TinyNetwork.Lib.Bytes
import Mathlib.Data.List.Lex

/-!
# Numbers in fields of fixed width

`padded w n` are the last `w` decimal digits of `n`.  A format is a list of widths, each with the
text behind the field, and `print` puts numbers in its fields.

`print_lt_iff`: as long as every number fits in its field, the lexicographic order of what is
printed is that of the numbers, so that different numbers are printed differently.
-/

namespace Bytes

/-- Pad on the left to `width` bytes. -/
def padLeft (c : UInt8) (width : ℕ) (bs : Bytes) : Bytes :=
  List.replicate (width - bs.length) c ++ bs

def digit (d : ℕ) : UInt8 := ofChar (Nat.digitChar d)

/-- The last digits of a number. -/
def padded : ℕ → ℕ → Bytes
  | 0, _ => []
  | w + 1, n => padded w (n / 10) ++ [digit (n % 10)]

@[simp] theorem length_padded (w n : ℕ) : (padded w n).length = w := by
  induction w generalizing n with
  | zero => rfl
  | succ w ih => rw [padded, List.length_append, ih, List.length_singleton]

theorem padded_zero (w : ℕ) : padded w 0 = List.replicate w 48 := by
  induction w with
  | zero => rfl
  | succ w ih =>
    rw [padded, Nat.zero_div, ih, List.replicate_succ']
    rfl

/-- A number that fits is padded with zeros. -/
theorem padLeft_decimal {w n : ℕ} (hw : 0 < w) (h : n < 10 ^ w) :
    padLeft 48 w (decimal n) = padded w n := by
  induction w generalizing n with
  | zero => exact absurd hw (Nat.lt_irrefl 0)
  | succ w ih =>
    rw [padded, decimal_eq]
    by_cases hn : n < 10
    · rw [if_pos hn, Nat.div_eq_of_lt hn, padded_zero, padLeft]
      rfl
    · have hdiv : n / 10 < 10 ^ w := by
        rw [pow_succ] at h
        omega
      have hpos : 0 < w := by
        by_contra hzero
        rw [Nat.eq_zero_of_not_pos hzero] at hdiv
        omega
      rw [if_neg hn, ← ih hpos hdiv, padLeft, padLeft, List.append_assoc, List.length_append,
        List.length_singleton, Nat.add_sub_add_right]
      rfl

/-! ### The order -/

/-- Behind fronts of one length the rest decides if they are equal. -/
theorem append_lt_append_iff {α : Type*} [LT α] {a b x y : List α} (h : a.length = b.length) :
    a ++ x < b ++ y ↔ a < b ∨ (a = b ∧ x < y) := by
  induction a generalizing b with
  | nil =>
    have hb : b = [] := List.length_eq_zero_iff.1 h.symm
    subst hb
    simp
  | cons c a ih =>
    cases b with
    | nil => cases h
    | cons d b =>
      rw [List.cons_append, List.cons_append, List.cons_lt_cons_iff, List.cons_lt_cons_iff,
        ih (Nat.succ.inj h), List.cons.injEq]
      tauto

theorem digit_lt_iff {d e : ℕ} (hd : d < 10) (he : e < 10) : digit d < digit e ↔ d < e := by
  have hall : ∀ d < 10, ∀ e < 10, (digit d < digit e ↔ d < e) := by decide
  exact hall d hd e he

theorem digit_injective {d e : ℕ} (hd : d < 10) (he : e < 10) (h : digit d = digit e) : d = e := by
  have hall : ∀ d < 10, ∀ e < 10, digit d = digit e → d = e := by decide
  exact hall d hd e he h

theorem padded_injective {w m n : ℕ} (hm : m < 10 ^ w) (hn : n < 10 ^ w)
    (h : padded w m = padded w n) : m = n := by
  induction w generalizing m n with
  | zero =>
    rw [pow_zero] at hm hn
    omega
  | succ w ih =>
    rw [pow_succ] at hm hn
    obtain ⟨hfront, hlast⟩ := List.append_inj' h rfl
    have hdiv := ih (by omega) (by omega) hfront
    have hmod := digit_injective (by omega) (by omega) (List.singleton_inj.1 hlast)
    omega

theorem padded_lt_iff {w m n : ℕ} (hm : m < 10 ^ w) (hn : n < 10 ^ w) :
    padded w m < padded w n ↔ m < n := by
  induction w generalizing m n with
  | zero =>
    rw [pow_zero] at hm hn
    simp [padded]
    omega
  | succ w ih =>
    rw [pow_succ] at hm hn
    have hm' : m / 10 < 10 ^ w := by omega
    have hn' : n / 10 < 10 ^ w := by omega
    rw [padded, padded, append_lt_append_iff (by simp), ih hm' hn', List.cons_lt_cons_iff,
      digit_lt_iff (Nat.mod_lt _ (by omega)) (Nat.mod_lt _ (by omega))]
    constructor
    · rintro (hlt | ⟨heq, hlt | ⟨-, hlt⟩⟩)
      · omega
      · have hdiv := padded_injective hm' hn' heq
        omega
      · exact absurd hlt (List.not_lt_nil _)
    · intro hlt
      by_cases hdiv : m / 10 = n / 10
      · exact .inr ⟨by rw [hdiv], .inl (by omega)⟩
      · exact .inl (by omega)

/-! ### Formats -/

/-- Print numbers into the fields of a format. -/
def print : List (ℕ × Bytes) → List ℕ → Bytes
  | (w, text) :: fields, n :: ns => padded w n ++ (text ++ print fields ns)
  | _, _ => []

/-- Each number has a field in which it fits. -/
def Fits : List (ℕ × Bytes) → List ℕ → Prop
  | [], [] => True
  | (w, _) :: fields, n :: ns => n < 10 ^ w ∧ Fits fields ns
  | _, _ => False

/-- **The order of what is printed is that of the numbers.** -/
theorem print_lt_iff {fields : List (ℕ × Bytes)} {xs ys : List ℕ} (hxs : Fits fields xs)
    (hys : Fits fields ys) : print fields xs < print fields ys ↔ xs < ys := by
  induction fields generalizing xs ys with
  | nil =>
    cases xs with
    | cons x xs => exact hxs.elim
    | nil =>
      cases ys with
      | cons y ys => exact hys.elim
      | nil => simp [print]
  | cons field fields ih =>
    cases xs with
    | nil => exact hxs.elim
    | cons x xs =>
      cases ys with
      | nil => exact hys.elim
      | cons y ys =>
        obtain ⟨hx, hxs⟩ := hxs
        obtain ⟨hy, hys⟩ := hys
        have hself : ¬ field.2 < field.2 := List.lt_irrefl _
        rw [print, print, append_lt_append_iff (by simp), append_lt_append_iff rfl,
          padded_lt_iff hx hy, ih hxs hys, List.cons_lt_cons_iff]
        constructor
        · rintro (hlt | ⟨heq, hlt | ⟨-, hlt⟩⟩)
          · exact .inl hlt
          · exact absurd hlt hself
          · exact .inr ⟨padded_injective hx hy heq, hlt⟩
        · rintro (hlt | ⟨rfl, hlt⟩)
          · exact .inl hlt
          · exact .inr ⟨rfl, .inr ⟨rfl, hlt⟩⟩

end Bytes
