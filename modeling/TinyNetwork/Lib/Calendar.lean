import Mathlib.Data.Nat.Find
import Mathlib.Order.Monotone.Basic
import Mathlib.Tactic.IntervalCases

/-!
# The Gregorian calendar

Days are numbered from 1 March of year 0.  The months are numbered from that March, so that the leap
day is the last day of month `12 * y + 11`, and the days in front of a month have the closed form
`first`; `first_succ` says that it agrees with the lengths of the months and the rule for leap
years.

A `Date` is valid by construction.  `ofDay` finds the month by its first day; `day_ofDay` and
`ofDay_day` say that dates and days are the same, and `day_lt_iff` that the order of the days is
that of year, month and day.
-/

namespace Calendar

def Leap (year : ℕ) : Prop := year % 4 = 0 ∧ (year % 100 ≠ 0 ∨ year % 400 = 0)

instance (year : ℕ) : Decidable (Leap year) := by
  unfold Leap
  infer_instance

/-- The number of days of a month, January being `1`. -/
def monthLength (year : ℕ) : ℕ → ℕ
  | 2 => if Leap year then 29 else 28
  | 4 => 30
  | 6 => 30
  | 9 => 30
  | 11 => 30
  | _ => 31

theorem monthLength_pos (year month : ℕ) : 28 ≤ monthLength year month := by
  unfold monthLength
  split <;> try omega
  split_ifs <;> omega

theorem monthLength_le (year month : ℕ) : monthLength year month ≤ 31 := by
  unfold monthLength
  split <;> try omega
  split_ifs <;> omega

/-! ### Months, counted from March of year 0 -/

/-- The days in front of month `m`. -/
def first (m : ℕ) : ℕ :=
  365 * (m / 12) + m / 12 / 4 - m / 12 / 100 + m / 12 / 400 + (153 * (m % 12) + 2) / 5

def yearOf (m : ℕ) : ℕ := (m + 2) / 12

def monthOf (m : ℕ) : ℕ := (m + 2) % 12 + 1

/-- The leap days in front of a year, and in it. -/
theorem leap_count (y : ℕ) : (y + 1) / 4 + y / 100 + (y + 1) / 400 =
    y / 4 + (y + 1) / 100 + y / 400 + if Leap (y + 1) then 1 else 0 := by
  rw [Nat.succ_div, Nat.succ_div, Nat.succ_div]
  simp only [Nat.dvd_iff_mod_eq_zero]
  by_cases hleap : Leap (y + 1)
  · rw [if_pos hleap]
    unfold Leap at hleap
    split_ifs <;> omega
  · rw [if_neg hleap]
    unfold Leap at hleap
    split_ifs <;> omega

/-- **The closed form agrees with the calendar.** -/
theorem first_succ (m : ℕ) : first (m + 1) = first m + monthLength (yearOf m) (monthOf m) := by
  obtain ⟨y, r, hr, rfl⟩ : ∃ y r, r < 12 ∧ m = 12 * y + r :=
    ⟨m / 12, m % 12, Nat.mod_lt _ (by omega), (Nat.div_add_mod m 12).symm⟩
  have hleap := leap_count y
  by_cases hlast : r = 11
  · -- February, with the year behind it
    subst hlast
    have hyear : yearOf (12 * y + 11) = y + 1 := by
      unfold yearOf
      omega
    have hmonth : monthOf (12 * y + 11) = 2 := by
      unfold monthOf
      omega
    have hdiv : (12 * y + 11) / 12 = y := by omega
    have hmod : (12 * y + 11) % 12 = 11 := by omega
    have hdiv' : (12 * y + 11 + 1) / 12 = y + 1 := by omega
    have hmod' : (12 * y + 11 + 1) % 12 = 0 := by omega
    have hle : y / 100 ≤ y / 4 := Nat.div_le_div_left (by omega) (by omega)
    have hle' : (y + 1) / 100 ≤ (y + 1) / 4 := Nat.div_le_div_left (by omega) (by omega)
    rw [hyear, hmonth, first, first, hdiv, hmod, hdiv', hmod']
    show _ = _ + if Leap (y + 1) then 29 else 28
    clear hyear hmonth hdiv hmod hdiv' hmod'
    generalize y / 4 = a, y / 100 = b, y / 400 = c, (y + 1) / 4 = a', (y + 1) / 100 = b',
      (y + 1) / 400 = c' at *
    split_ifs at hleap ⊢ <;> omega
  · have hmonth : monthOf (12 * y + r) = (r + 2) % 12 + 1 := by
      unfold monthOf
      omega
    have hdiv : (12 * y + r) / 12 = y := by omega
    have hmod : (12 * y + r) % 12 = r := by omega
    have hdiv' : (12 * y + r + 1) / 12 = y := by omega
    have hmod' : (12 * y + r + 1) % 12 = r + 1 := by omega
    rw [hmonth, first, first, hdiv, hmod, hdiv', hmod']
    have hlt : r < 11 := by omega
    clear hleap hmonth hdiv hmod hdiv' hmod' hlast hr
    interval_cases r <;> simp [monthLength]

theorem first_lt_succ (m : ℕ) : first m < first (m + 1) := by
  have hpos := monthLength_pos (yearOf m) (monthOf m)
  rw [first_succ]
  omega

theorem first_strictMono : StrictMono first := strictMono_nat_of_lt_succ first_lt_succ

theorem le_first (m : ℕ) : 28 * m ≤ first m := by
  induction m with
  | zero => exact Nat.zero_le _
  | succ m ih =>
    have hpos := monthLength_pos (yearOf m) (monthOf m)
    rw [first_succ]
    omega

/-- The month in which a day lies. -/
def monthAt (day : ℕ) : ℕ := Nat.findGreatest (fun m => first m ≤ day) (day / 28)

theorem first_monthAt_le (day : ℕ) : first (monthAt day) ≤ day :=
  Nat.findGreatest_spec (P := fun m => first m ≤ day) (Nat.zero_le _) (Nat.zero_le day)

theorem lt_first_succ_monthAt (day : ℕ) : day < first (monthAt day + 1) := by
  by_cases hle : monthAt day + 1 ≤ day / 28
  · exact not_le.1 (Nat.findGreatest_is_greatest (P := fun m => first m ≤ day)
      (Nat.lt_succ_self _) hle)
  · have hfirst := le_first (monthAt day + 1)
    omega

theorem monthAt_unique {day m : ℕ} (hle : first m ≤ day) (hlt : day < first (m + 1)) :
    monthAt day = m := by
  have hle' := first_monthAt_le day
  have hlt' := lt_first_succ_monthAt day
  have h := first_strictMono.lt_iff_lt.1 (hle'.trans_lt hlt)
  have h' := first_strictMono.lt_iff_lt.1 (hle.trans_lt hlt')
  omega

/-! ### Dates -/

/-- A date from 1 March of year 0 on. -/
@[ext]
structure Date where
  year : ℕ
  month : ℕ
  dayOfMonth : ℕ
  month_pos : 1 ≤ month
  month_le : month ≤ 12
  day_pos : 1 ≤ dayOfMonth
  day_le : dayOfMonth ≤ monthLength year month
  from_march : 3 ≤ 12 * year + month
  deriving DecidableEq

namespace Date

/-- The number of the month. -/
def index (d : Date) : ℕ := 12 * d.year + d.month - 3

/-- The number of the day. -/
def day (d : Date) : ℕ := first d.index + (d.dayOfMonth - 1)

theorem yearOf_index (d : Date) : yearOf d.index = d.year := by
  have hpos := d.month_pos
  have hle := d.month_le
  have hmarch := d.from_march
  unfold yearOf index
  omega

theorem monthOf_index (d : Date) : monthOf d.index = d.month := by
  have hpos := d.month_pos
  have hle := d.month_le
  have hmarch := d.from_march
  unfold monthOf index
  omega

theorem day_lt (d : Date) : d.day < first (d.index + 1) := by
  have hpos := d.day_pos
  have hle := d.day_le
  rw [first_succ, d.yearOf_index, d.monthOf_index, day]
  omega

theorem monthAt_day (d : Date) : monthAt d.day = d.index :=
  monthAt_unique (Nat.le_add_right _ _) d.day_lt

/-- The date of a day. -/
def ofDay (n : ℕ) : Date where
  year := yearOf (monthAt n)
  month := monthOf (monthAt n)
  dayOfMonth := n - first (monthAt n) + 1
  month_pos := Nat.succ_pos _
  month_le := Nat.mod_lt _ (by omega)
  day_pos := Nat.succ_pos _
  day_le := by
    have hle := first_monthAt_le n
    have hlt := lt_first_succ_monthAt n
    rw [first_succ] at hlt
    omega
  from_march := by
    unfold yearOf monthOf
    omega

theorem index_ofDay (n : ℕ) : (ofDay n).index = monthAt n := by
  show 12 * yearOf (monthAt n) + monthOf (monthAt n) - 3 = monthAt n
  unfold yearOf monthOf
  omega

/-- **Every day has a date.** -/
theorem day_ofDay (n : ℕ) : (ofDay n).day = n := by
  have hle := first_monthAt_le n
  rw [day, index_ofDay]
  show first (monthAt n) + (n - first (monthAt n) + 1 - 1) = n
  omega

/-- **And every date is that of its day.** -/
theorem ofDay_day (d : Date) : ofDay d.day = d := by
  have hpos := d.day_pos
  have hmonth := d.monthAt_day
  ext
  · show yearOf (monthAt d.day) = d.year
    rw [hmonth, d.yearOf_index]
  · show monthOf (monthAt d.day) = d.month
    rw [hmonth, d.monthOf_index]
  · show d.day - first (monthAt d.day) + 1 = d.dayOfMonth
    rw [hmonth, day]
    omega

theorem index_lt_iff {d e : Date} :
    d.index < e.index ↔ d.year < e.year ∨ (d.year = e.year ∧ d.month < e.month) := by
  have hd := d.month_pos
  have hd' := d.month_le
  have hd'' := d.from_march
  have he := e.month_pos
  have he' := e.month_le
  have he'' := e.from_march
  unfold index
  omega

/-- **The order of the days** is that of year, month and day. -/
theorem day_lt_iff {d e : Date} : d.day < e.day ↔ d.year < e.year ∨ (d.year = e.year ∧
    (d.month < e.month ∨ (d.month = e.month ∧ d.dayOfMonth < e.dayOfMonth))) := by
  have hlex : d.day < e.day ↔
      d.index < e.index ∨ (d.index = e.index ∧ d.dayOfMonth < e.dayOfMonth) := by
    have hd := d.day_pos
    have he := e.day_pos
    constructor
    · intro hlt
      have hle : d.index ≤ e.index := by
        have hfirst : first d.index ≤ d.day := Nat.le_add_right _ _
        have hmonths := hfirst.trans_lt (hlt.trans e.day_lt)
        exact Nat.lt_succ_iff.1 (first_strictMono.lt_iff_lt.1 hmonths)
      rcases Nat.lt_or_eq_of_le hle with hlt' | heq
      · exact .inl hlt'
      · refine .inr ⟨heq, ?_⟩
        unfold day at hlt
        rw [heq] at hlt
        omega
    · rintro (hlt | ⟨heq, hlt⟩)
      · have hfirst : first (d.index + 1) ≤ first e.index := first_strictMono.monotone hlt
        exact d.day_lt.trans_le (hfirst.trans (Nat.le_add_right _ _))
      · unfold day
        rw [heq]
        omega
  have hindex : d.index = e.index ↔ d.year = e.year ∧ d.month = e.month := by
    refine ⟨fun h => ?_, fun ⟨hy, hm⟩ => by rw [index, index, hy, hm]⟩
    rw [← d.yearOf_index, ← e.yearOf_index, ← d.monthOf_index, ← e.monthOf_index, h]
    exact ⟨rfl, rfl⟩
  rw [hlex, index_lt_iff, hindex]
  tauto

end Date

end Calendar
