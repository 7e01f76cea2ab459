import TinyNetwork.Base.TimeStamp
import TinyNetwork.Lib.Calendar
import TinyNetwork.Lib.FixedWidth

/-!
# Formatted times (src/base/TimeStamp.h, src/base/TimeStamp.cpp)

The time zone is a parameter: by how many seconds the local clocks are ahead.  `localtime` splits
what they show into the fields of a `tm`, from 1 March of year 0 on.

The years are printed with `%4d`, which pads with blanks, so all that follows is about years of four
digits.  `formatted_order`: formatted times are in the order of what the local clocks show.
-/

namespace TinyNetwork

open Bytes Calendar

/-- By how many seconds the local clocks are ahead, at each time. -/
abbrev Zone := ℤ → ℤ

/-- What the local clocks show, in seconds since they showed the beginning of 1970. -/
def localSeconds (zone : Zone) (seconds : ℤ) : ℤ := seconds + zone seconds

/-- The fields of `struct tm` that are printed. -/
structure Tm where
  tm_sec : ℤ
  tm_min : ℤ
  tm_hour : ℤ
  tm_mday : ℤ
  tm_mon : ℤ
  tm_year : ℤ
  deriving DecidableEq

/-- The number of 1 January 1970 in the calendar. -/
def epochDay : ℕ := 719468

example :
    epochDay = Date.day ⟨1970, 1, 1, by decide, by decide, by decide, by decide, by decide⟩ := by
  decide

def dateOf (s : ℤ) : Date := .ofDay (s / 86400 + epochDay).toNat

def secondOfDay (s : ℤ) : ℤ := s % 86400

def tmOf (s : ℤ) : Tm where
  tm_sec := secondOfDay s % 60
  tm_min := secondOfDay s / 60 % 60
  tm_hour := secondOfDay s / 3600
  tm_mday := (dateOf s).dayOfMonth
  tm_mon := (dateOf s).month - 1
  tm_year := (dateOf s).year - 1900

def localtime (zone : Zone) (seconds : ℤ) : Tm := tmOf (localSeconds zone seconds)

/-! ### What `printf` makes of a number -/

/-- `%d` with a width. -/
def formatBlank (width : ℕ) (n : ℤ) : Bytes := padLeft 32 width (decimalInt n)

/-- `%0d` with a width; the zeros stand behind the sign. -/
def formatZero (width : ℕ) (n : ℤ) : Bytes :=
  if n < 0 then ascii "-" ++ padLeft 48 (width - 1) (decimal n.natAbs)
  else padLeft 48 width (decimal n.natAbs)

theorem formatZero_natCast {w n : ℕ} (hw : 0 < w) (h : n < 10 ^ w) :
    formatZero w n = padded w n := by
  rw [formatZero, if_neg (by omega), Int.natAbs_natCast, padLeft_decimal hw h]

/-- A year of four digits is not padded. -/
theorem decimal_year {n : ℕ} (hle : 1000 ≤ n) (hlt : n < 10000) :
    decimal n = padded 4 n ∧ formatBlank 4 n = padded 4 n := by
  have hlen : 4 ≤ (decimal n).length := by
    by_contra hshort
    have hsmall := (Nat.length_toDigits_le_iff (b := 10) (n := n) (k := 3) (by omega) (by omega)).1
      (by
        rw [decimal, List.length_map] at hshort
        omega)
    omega
  have hpad : ∀ c, padLeft c 4 (decimal n) = decimal n := by
    intro c
    rw [padLeft, Nat.sub_eq_zero_of_le hlen]
    rfl
  have hdigits : decimal n = padded 4 n := by
    rw [← padLeft_decimal (by omega) (by omega : n < 10 ^ 4), hpad]
  refine ⟨hdigits, ?_⟩
  rw [formatBlank, decimalInt_natCast, hpad, hdigits]

/-! ### Times -/

/-- `"%4d-%02d-%02d %02d:%02d:%02d"`. -/
def formatTm (tm_time : Tm) : Bytes :=
  formatBlank 4 (tm_time.tm_year + 1900) ++ ascii "-" ++ formatZero 2 (tm_time.tm_mon + 1) ++
    ascii "-" ++ formatZero 2 tm_time.tm_mday ++ ascii " " ++ formatZero 2 tm_time.tm_hour ++
    ascii ":" ++ formatZero 2 tm_time.tm_min ++ ascii ":" ++ formatZero 2 tm_time.tm_sec

namespace TimeStamp

def secondsSinceEpoch (time : TimeStamp) : ℤ := time.tdiv kMicroSecondsPerSecond

def microseconds (time : TimeStamp) : ℤ := time.tmod kMicroSecondsPerSecond

/-- `toFormattedString`. -/
def toFormattedString (zone : Zone) (time : TimeStamp) (showMicroseconds : Bool) : Bytes :=
  let tm_time := localtime zone (secondsSinceEpoch time)
  if showMicroseconds then
    snprintf 64 (formatTm tm_time ++ ascii "." ++ formatZero 6 (microseconds time))
  else snprintf 64 (formatTm tm_time)

end TimeStamp

/-- The year has four digits. -/
def FourDigits (s : ℤ) : Prop := 1000 ≤ (tmOf s).tm_year + 1900 ∧ (tmOf s).tm_year + 1900 < 10000

instance (s : ℤ) : Decidable (FourDigits s) := by
  unfold FourDigits
  infer_instance

/-- What is printed, from the year down to the second. -/
def numbers (s : ℤ) : List ℕ :=
  [(dateOf s).year, (dateOf s).month, (dateOf s).dayOfMonth, (secondOfDay s).toNat / 3600,
    (secondOfDay s).toNat / 60 % 60, (secondOfDay s).toNat % 60]

/-- The fields in which it is printed, and what is printed behind the second. -/
def dateFields (behind : List (ℕ × Bytes)) : List (ℕ × Bytes) :=
  (4, ascii "-") :: (2, ascii "-") :: (2, ascii " ") :: (2, ascii ":") :: (2, ascii ":") :: behind

theorem secondOfDay_bounds (s : ℤ) : 0 ≤ secondOfDay s ∧ secondOfDay s < 86400 := by
  unfold secondOfDay
  omega

/-- Times in front of the calendar are shown with year 0. -/
theorem FourDigits.day_nonneg {s : ℤ} (h : FourDigits s) : 0 ≤ s / 86400 + epochDay := by
  by_contra hneg
  have hyear : (dateOf s).year = 0 := by
    rw [dateOf, Int.toNat_of_nonpos (by omega)]
    rfl
  obtain ⟨hle, -⟩ := h
  have htm : (tmOf s).tm_year = -1900 := by
    show ((dateOf s).year : ℤ) - 1900 = -1900
    rw [hyear]
    rfl
  omega

theorem FourDigits.year {s : ℤ} (h : FourDigits s) :
    1000 ≤ (dateOf s).year ∧ (dateOf s).year < 10000 := by
  have htm : (tmOf s).tm_year = (dateOf s).year - 1900 := rfl
  unfold FourDigits at h
  omega

/-- The order of the times of a day. -/
theorem clock_lt_iff (a b : ℕ) : a < b ↔ a / 3600 < b / 3600 ∨ (a / 3600 = b / 3600 ∧
    (a / 60 % 60 < b / 60 % 60 ∨ (a / 60 % 60 = b / 60 % 60 ∧ a % 60 < b % 60))) := by
  omega

/-- **The fields are in the order of the times.** -/
theorem numbers_lt_iff {s t : ℤ} (hs : 0 ≤ s / 86400 + epochDay) (ht : 0 ≤ t / 86400 + epochDay) :
    numbers s < numbers t ↔ s < t := by
  have hsplit : s < t ↔ (dateOf s).day < (dateOf t).day ∨
      ((dateOf s).day = (dateOf t).day ∧ (secondOfDay s).toNat < (secondOfDay t).toNat) := by
    rw [dateOf, dateOf, Date.day_ofDay, Date.day_ofDay]
    unfold secondOfDay
    omega
  have hsame : (dateOf s).day = (dateOf t).day ↔ (dateOf s).year = (dateOf t).year ∧
      (dateOf s).month = (dateOf t).month ∧ (dateOf s).dayOfMonth = (dateOf t).dayOfMonth := by
    constructor
    · intro h
      have hdate : dateOf s = dateOf t := by rw [← Date.ofDay_day (dateOf s), h, Date.ofDay_day]
      rw [hdate]
      exact ⟨rfl, rfl, rfl⟩
    · rintro ⟨hyear, hmonth, hday⟩
      rw [Date.ext hyear hmonth hday]
  rw [hsplit, hsame, Date.day_lt_iff, clock_lt_iff (secondOfDay s).toNat]
  simp only [numbers, List.cons_lt_cons_iff, List.not_lt_nil, and_false, or_false, and_or_left,
    or_assoc, and_assoc]

/-- All fields are wide enough. -/
theorem fits_numbers {s : ℤ} (hs : FourDigits s) {behind : List (ℕ × Bytes)} {ns : List ℕ}
    {text : Bytes} (h : Fits behind ns) :
    Fits (dateFields ((2, text) :: behind)) (numbers s ++ ns) := by
  obtain ⟨-, hyear⟩ := hs.year
  have hmonth := (dateOf s).month_le
  have hday := (dateOf s).day_le
  have hlen := monthLength_le (dateOf s).year (dateOf s).month
  have hbounds := secondOfDay_bounds s
  refine ⟨?_, ?_, ?_, ?_, ?_, ?_, h⟩ <;> omega

/-- What `printf` makes of the fields, with more of them behind the second. -/
theorem formatTm_tmOf {s : ℤ} (hs : FourDigits s) (text : Bytes) (behind : List (ℕ × Bytes))
    (ns : List ℕ) : formatTm (tmOf s) ++ (text ++ print behind ns) =
      print (dateFields ((2, text) :: behind)) (numbers s ++ ns) := by
  obtain ⟨hle, hlt⟩ := hs.year
  have hmonth := (dateOf s).month_le
  have hday := (dateOf s).day_le
  have hlen := monthLength_le (dateOf s).year (dateOf s).month
  have hbounds := secondOfDay_bounds s
  have htwo : ∀ {n : ℤ} {k : ℕ}, n = k → k < 100 → formatZero 2 n = padded 2 k := by
    intro n k hn hk
    rw [hn, formatZero_natCast (by omega) (by omega)]
  have hyear : formatBlank 4 ((tmOf s).tm_year + 1900) = padded 4 (dateOf s).year := by
    rw [show (tmOf s).tm_year + 1900 = ((dateOf s).year : ℤ) from Int.sub_add_cancel _ _]
    exact (decimal_year hle hlt).2
  have hmon : formatZero 2 ((tmOf s).tm_mon + 1) = padded 2 (dateOf s).month :=
    htwo (Int.sub_add_cancel _ _) (by omega)
  have hmday : formatZero 2 (tmOf s).tm_mday = padded 2 (dateOf s).dayOfMonth :=
    htwo rfl (by omega)
  have hhour : formatZero 2 (tmOf s).tm_hour = padded 2 ((secondOfDay s).toNat / 3600) := by
    refine htwo ?_ (by omega)
    show secondOfDay s / 3600 = _
    omega
  have hmin : formatZero 2 (tmOf s).tm_min = padded 2 ((secondOfDay s).toNat / 60 % 60) := by
    refine htwo ?_ (by omega)
    show secondOfDay s / 60 % 60 = _
    omega
  have hsec : formatZero 2 (tmOf s).tm_sec = padded 2 ((secondOfDay s).toNat % 60) := by
    refine htwo ?_ (by omega)
    show secondOfDay s % 60 = _
    omega
  rw [formatTm, hyear, hmon, hmday, hhour, hmin, hsec]
  simp only [dateFields, numbers, print, List.append_assoc, List.cons_append, List.nil_append]

theorem length_formatTm {s : ℤ} (hs : FourDigits s) : (formatTm (tmOf s)).length = 19 := by
  have hprint := formatTm_tmOf hs [] [] []
  have hlen := congrArg List.length hprint
  simpa [dateFields, numbers, print, ascii] using hlen

/-- Times that are printed alike are alike. -/
theorem numbers_injective {s t : ℤ} (hs : FourDigits s) (ht : FourDigits t)
    (h : numbers s = numbers t) : s = t := by
  have hself : ¬ numbers t < numbers t := List.lt_irrefl _
  have hlt := numbers_lt_iff hs.day_nonneg ht.day_nonneg
  have hgt := numbers_lt_iff ht.day_nonneg hs.day_nonneg
  rw [h] at hlt hgt
  exact le_antisymm (not_lt.1 fun h => hself (hgt.2 h)) (not_lt.1 fun h => hself (hlt.2 h))

/-- Formatted times with a text behind them. -/
theorem formatTm_append_lt_iff {s t : ℤ} (hs : FourDigits s) (ht : FourDigits t) (text : Bytes) :
    formatTm (tmOf s) ++ text < formatTm (tmOf t) ++ text ↔ s < t := by
  have hfits : ∀ {u : ℤ}, FourDigits u → Fits (dateFields [(2, text)]) (numbers u) := by
    intro u hu
    have h : Fits (dateFields [(2, text)]) (numbers u ++ []) := fits_numbers hu trivial
    rwa [List.append_nil] at h
  have hprint : ∀ {u : ℤ}, FourDigits u →
      formatTm (tmOf u) ++ text = print (dateFields [(2, text)]) (numbers u) := by
    intro u hu
    have h := formatTm_tmOf hu text [] []
    rwa [print, List.append_nil, List.append_nil] at h
    all_goals simp
  rw [hprint hs, hprint ht, print_lt_iff (hfits hs) (hfits ht),
    numbers_lt_iff hs.day_nonneg ht.day_nonneg]

namespace TimeStamp

variable {zone : Zone} {a b : TimeStamp}

theorem toFormattedString_false
    (ha : FourDigits (localSeconds zone (secondsSinceEpoch a))) :
    toFormattedString zone a false =
      formatTm (tmOf (localSeconds zone (secondsSinceEpoch a))) := by
  have hlen := length_formatTm ha
  rw [toFormattedString, localtime, if_neg Bool.false_ne_true, snprintf_of_lt (by omega)]

theorem microseconds_nonneg (ha : 0 ≤ a) : 0 ≤ microseconds a ∧ microseconds a < 1000000 :=
  ⟨Int.tmod_nonneg kMicroSecondsPerSecond ha,
    Int.tmod_lt_of_pos a (show 0 < kMicroSecondsPerSecond by decide)⟩

/-- The microseconds are one more field. -/
theorem toFormattedString_true (ha : 0 ≤ a)
    (hfa : FourDigits (localSeconds zone (secondsSinceEpoch a))) :
    toFormattedString zone a true = print (dateFields [(2, ascii "."), (6, [])])
      (numbers (localSeconds zone (secondsSinceEpoch a)) ++ [(microseconds a).toNat]) := by
  obtain ⟨hnonneg, hlt⟩ := microseconds_nonneg ha
  have hzero : formatZero 6 (microseconds a) = padded 6 (microseconds a).toNat := by
    rw [← formatZero_natCast (by omega) (by omega), Int.toNat_of_nonneg hnonneg]
  have htext : formatTm (tmOf (localSeconds zone (secondsSinceEpoch a))) ++ ascii "." ++
      formatZero 6 (microseconds a) = print (dateFields [(2, ascii "."), (6, [])])
        (numbers (localSeconds zone (secondsSinceEpoch a)) ++ [(microseconds a).toNat]) := by
    rw [← formatTm_tmOf hfa, hzero, List.append_assoc]
    simp only [print, List.append_nil]
  have hlen : (formatTm (tmOf (localSeconds zone (secondsSinceEpoch a))) ++ ascii "." ++
      formatZero 6 (microseconds a)).length < 64 := by
    rw [List.length_append, List.length_append, length_formatTm hfa, hzero, length_padded]
    decide
  rw [toFormattedString, localtime, if_pos rfl, snprintf_of_lt hlen, htext]

/-- **Formatted times are in the order of what the local clocks show**, with the microseconds behind
the seconds if they are shown. -/
theorem formatted_order (ha : 0 ≤ a) (hb : 0 ≤ b)
    (hfa : FourDigits (localSeconds zone (secondsSinceEpoch a)))
    (hfb : FourDigits (localSeconds zone (secondsSinceEpoch b))) (showMicroseconds : Bool) :
    toFormattedString zone a showMicroseconds < toFormattedString zone b showMicroseconds ↔
      localSeconds zone (secondsSinceEpoch a) < localSeconds zone (secondsSinceEpoch b) ∨
      (showMicroseconds = true ∧
        localSeconds zone (secondsSinceEpoch a) = localSeconds zone (secondsSinceEpoch b) ∧
        microseconds a < microseconds b) := by
  cases showMicroseconds with
  | false =>
    have h := formatTm_append_lt_iff hfa hfb []
    rw [List.append_nil, List.append_nil] at h
    rw [toFormattedString_false hfa, toFormattedString_false hfb, h]
    simp
  | true =>
    obtain ⟨hnonneg, hlt⟩ := microseconds_nonneg ha
    obtain ⟨hnonneg', hlt'⟩ := microseconds_nonneg hb
    have hfits : ∀ {s : ℤ} {n : ℕ}, FourDigits s → n < 1000000 →
        Fits (dateFields [(2, ascii "."), (6, [])]) (numbers s ++ [n]) :=
      fun hs hn => fits_numbers hs ⟨hn, trivial⟩
    have hlen : ∀ s t : ℤ, (numbers s).length = (numbers t).length := fun _ _ => rfl
    rw [toFormattedString_true ha hfa, toFormattedString_true hb hfb,
      print_lt_iff (hfits hfa (by omega)) (hfits hfb (by omega)), append_lt_append_iff (hlen _ _),
      numbers_lt_iff hfa.day_nonneg hfb.day_nonneg]
    have hmicro : [(microseconds a).toNat] < [(microseconds b).toNat] ↔
        microseconds a < microseconds b := by
      rw [List.cons_lt_cons_iff]
      simp only [List.not_lt_nil, and_false, or_false]
      omega
    have hsame : numbers (localSeconds zone (secondsSinceEpoch a)) =
        numbers (localSeconds zone (secondsSinceEpoch b)) ↔
        localSeconds zone (secondsSinceEpoch a) = localSeconds zone (secondsSinceEpoch b) :=
      ⟨numbers_injective hfa hfb, fun h => by rw [h]⟩
    rw [hmicro, hsame]
    simp

/-- The last microsecond of a year, in a zone that is an hour ahead, and the next one. -/
theorem formatted_order_newYear :
    toFormattedString (fun _ => 3600) 946681199999999 true = ascii "1999-12-31 23:59:59.999999" ∧
    toFormattedString (fun _ => 3600) 946681200000000 true = ascii "2000-01-01 00:00:00.000000" ∧
    toFormattedString (fun _ => 3600) 946681199999999 true <
      toFormattedString (fun _ => 3600) 946681200000000 true :=
  ⟨by decide +kernel, by decide +kernel, (formatted_order (by decide) (by decide)
    (by decide +kernel) (by decide +kernel) true).2 (.inl (by decide))⟩

end TimeStamp

end TinyNetwork
