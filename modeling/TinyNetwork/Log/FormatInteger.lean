import TinyNetwork.Log.LogStream

/-!
# How integers are formatted

The loop of `formatInteger` writes the digits of a positive value.  For zero it writes nothing, and
for the least value of a signed type, which is its own negation, only the sign.

`formatInteger_exact_iff`: these are the only values that are not formatted as they should be.
-/

namespace TinyNetwork

open Bytes FixedBuffer

namespace LogStream

/-- From `s` to `t` the decimal rendering of `v` was appended, which can be read back, and only
the next `kMaxNumericSize` bytes were used, one of them for the terminator. -/
structure Formats (s t : LogStream) (v : ℤ) : Prop where
  content : t.toString = s.toString ++ decimalInt v
  value : parseDecimalInt (t.toString.drop s.toString.length) = v
  used : (t.cur_ + 1 : ℤ) ≤ s.cur_ + kMaxNumericSize
  frame : ∀ j : ℕ, j < s.cur_ ∨ s.cur_ + kMaxNumericSize ≤ j →
    t.data_.cells[j]? = s.data_.cells[j]?

theorem zero_natCast {d : ℕ} (h : d < 10) : zero d = ofChar d.digitChar := by
  revert h
  revert d
  decide

/-- The loop writes the digits of a positive value, the last one first. -/
theorem reverse_formatLoop {n m : ℕ} (hm : 0 < m) (hn : m ≤ n) :
    (formatLoop n m).reverse = decimal m := by
  induction n generalizing m with
  | zero => omega
  | succ n ih =>
    have hpos : (0 : ℤ) < m := Int.natCast_pos.2 hm
    have hmod : (m : ℤ).tmod 10 = (m % 10 : ℕ) := rfl
    have hdiv : (m : ℤ).tdiv 10 = (m / 10 : ℕ) := rfl
    rw [formatLoop, if_pos hpos, hmod, hdiv, zero_natCast (Nat.mod_lt m (by omega)),
      List.reverse_cons, decimal_eq]
    congr 1
    split_ifs with hlt
    · have hzero : m / 10 = 0 := Nat.div_eq_of_lt hlt
      rw [hzero]
      cases n <;> rfl
    · exact ih (Nat.div_pos (by omega) (by omega)) (by omega)

/-- A value that is formatted as it should be. -/
theorem rendering_integer {T : IntegerType} {v : ℤ} (hmin : T.minValue ≤ v) (hzero : v ≠ 0)
    (hneg : v ≠ T.minValue) : (integerChars T v).reverse = decimalInt v := by
  unfold integerChars decimalInt
  by_cases h : v < 0
  · have hwrap : T.wrap (-v) = (v.natAbs : ℕ) := by
      rw [IntegerType.wrap_of_fits ?_ ?_]
      · omega
      · exact le_trans T.minValue_nonpos (by omega)
      · have hmax := T.neg_minValue_le
        omega
    simp only [h, decide_true, if_true, hwrap, List.reverse_append, Int.toNat_natCast]
    rw [reverse_formatLoop (by omega) le_rfl]
    rfl
  · have hv : v = (v.natAbs : ℕ) := by omega
    simp only [h, decide_false, Bool.false_eq_true, if_false, List.append_nil]
    rw [hv, Int.toNat_natCast, Int.natAbs_natCast]
    exact reverse_formatLoop (by omega) le_rfl

theorem integerChars_zero (T : IntegerType) : integerChars T 0 = [] := rfl

theorem integerChars_minValue {T : IntegerType} (h : T.minValue ≠ 0) :
    integerChars T T.minValue = ascii "-" := by
  cases T <;> first | rfl | exact absurd rfl h

theorem decimalInt_ne_nil (v : ℤ) : decimalInt v ≠ [] := by
  unfold decimalInt
  rw [decimal_eq]
  split_ifs <;> simp [ascii]

theorem decimalInt_ne_sign (v : ℤ) : decimalInt v ≠ ascii "-" := by
  intro h
  have hread : parseDecimalInt (ascii "-") = v := h ▸ parseDecimalInt_decimalInt v
  obtain rfl : 0 = v := hread
  exact absurd h (by decide)

/-- The values that are formatted as they should be. -/
theorem rendering_integer_iff {T : IntegerType} {v : ℤ} (hmin : T.minValue ≤ v) :
    (integerChars T v).reverse = decimalInt v ↔ v ≠ 0 ∧ v ≠ T.minValue := by
  constructor
  · intro h
    constructor
    · rintro rfl
      exact decimalInt_ne_nil 0 h.symm
    · rintro rfl
      by_cases hzero : T.minValue = 0
      · rw [hzero] at h
        exact decimalInt_ne_nil 0 h.symm
      · rw [integerChars_minValue hzero] at h
        exact decimalInt_ne_sign _ h.symm
  · rintro ⟨hzero, hneg⟩
    exact rendering_integer hmin hzero hneg

theorem minValue_formatType_le {T : IntegerType} (v : T.Value) :
    (formatType T).minValue ≤ v.val := by
  have hle := v.min_le
  cases T <;> simp only [formatType, IntegerType.minValue, IntegerType.signed, IntegerType.width,
    if_true, Bool.false_eq_true, if_false] at hle ⊢ <;> omega

variable {Double : Type} (printDouble : Double → Bytes)

/-- **When integer formatting is exact.**  With `kMaxNumericSize` bytes of room, a value of an
integer type is appended in its decimal rendering, within these bytes, if and only if it is neither
zero nor the least value of the signed type in which it is formatted. -/
theorem formatInteger_exact_iff {s : LogStream} (hroom : s.cur_ + kMaxNumericSize ≤ kSmallBuffer)
    {T : IntegerType} (v : T.Value) :
    ∃ t, shiftLeft printDouble s (.integer T v) = some t ∧
      (Formats s t v.val ↔ v.val ≠ 0 ∧ v.val ≠ (formatType T).minValue) := by
  have hroom : s.cur_ + 48 ≤ kSmallBuffer := Int.ofNat_le.1 hroom
  obtain ⟨f, hs⟩ := Raw.exists_shows (b := s) (by omega)
  have hlen := length_integerChars_lt (formatType T) (formatType_le v)
  have havail : 48 ≤ f.avail := by
    have hcur := hs.cur
    unfold FixedBuffer.avail
    omega
  obtain ⟨t, u, ht, hu, heq⟩ := formatInteger_eq hs (formatType T) (formatType_le v) havail
  obtain ⟨w, hw, hshows⟩ := shows_formatInteger hs (formatType T) (formatType_le v)
  rw [heq] at hw
  obtain rfl := Option.some.inj hw
  refine ⟨_, heq, ?_⟩
  rw [← rendering_integer_iff (minValue_formatType_le v)]
  have hnew : (u.add (integerChars (formatType T) v.val).reverse.length).toString =
      s.toString ++ (integerChars (formatType T) v.val).reverse := by
    rw [hshows.toString kSmallBuffer_lt, hs.toString kSmallBuffer_lt,
      if_pos (show kMaxNumericSize ≤ f.avail from Int.ofNat_le.2 havail), data_append]
    rw [List.length_reverse]
    omega
  obtain ⟨htcur, htframe⟩ := Raw.frame_store ht
  obtain ⟨hucur, huframe⟩ := Raw.frame_store hu
  simp only [List.length_append, List.length_singleton] at htframe
  simp only [List.length_reverse] at huframe
  constructor
  · intro h
    exact List.append_cancel_left (hnew.symm.trans h.content)
  · intro h
    refine ⟨hnew.trans (congrArg (s.toString ++ ·) h), ?_, ?_, fun j hj => ?_⟩
    · rw [hnew, h, List.drop_left, parseDecimalInt_decimalInt]
    · rw [Raw.add, List.length_reverse, hucur, htcur]
      unfold kMaxNumericSize
      push_cast
      omega
    · have hj : j < s.cur_ ∨ s.cur_ + 48 ≤ j := by
        unfold kMaxNumericSize at hj
        omega
      exact (huframe j (by omega)).trans (htframe j (by omega))

/-- The least `short`, which is formatted as an `int`. -/
def leastShort : IntegerType.Value .short := ⟨-32768, by decide, by decide⟩

theorem formatInteger_exact_short :
    ∃ t, shiftLeft printTwo fresh (.integer .short leastShort) = some t ∧
      Formats fresh t (-32768) := by
  obtain ⟨t, ht, hiff⟩ := formatInteger_exact_iff printTwo (s := fresh) (by decide) leastShort
  exact ⟨t, ht, hiff.2 (by decide)⟩

theorem toString_fresh (op : Operand Bool) :
    ∃ t, shiftLeft printTwo fresh op = some t ∧
      t.toString = (put printTwo FixedBuffer.new op).data := by
  obtain ⟨t, ht, hshows⟩ :=
    shows_shiftLeft printTwo (Raw.shows_new (Block.replicate kSmallBuffer 0)) length_printTwo_lt op
  exact ⟨t, ht, hshows.toString kSmallBuffer_lt⟩

/-- Zero is formatted as nothing, and the least `int` as a sign. -/
theorem zero_left_out :
    (∃ t, shiftLeft printTwo fresh (.integer .int ⟨0, by decide, by decide⟩) = some t ∧
      t.toString = [] ∧ ¬ Formats fresh t 0) ∧
    ∃ t, shiftLeft printTwo fresh (.integer .int ⟨-2147483648, by decide, by decide⟩) = some t ∧
      t.toString = ascii "-" ∧ ¬ Formats fresh t (-2147483648) := by
  have hfresh : fresh.toString = [] := rfl
  constructor
  · obtain ⟨t, ht, hcontent⟩ := toString_fresh (.integer .int ⟨0, by decide, by decide⟩)
    refine ⟨t, ht, hcontent, fun h => ?_⟩
    have heq := h.content
    rw [hcontent, hfresh] at heq
    exact absurd heq (by decide)
  · obtain ⟨t, ht, hcontent⟩ := toString_fresh (.integer .int ⟨-2147483648, by decide, by decide⟩)
    refine ⟨t, ht, hcontent, fun h => ?_⟩
    have heq := h.content
    rw [hcontent, hfresh] at heq
    exact absurd heq (by decide)

end LogStream

end TinyNetwork
