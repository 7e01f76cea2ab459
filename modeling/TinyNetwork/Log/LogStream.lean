import TinyNetwork.Base.RawBuffer

/-!
# `class LogStream` (src/log/LogStream.h, src/log/LogStream.cpp)

`shiftLeft` is `operator<<` for the operands that the class accepts.  Text is appended if it leaves
room for one more byte.  A number is rendered in place, with a terminator behind it, if there is
room for `kMaxNumericSize` bytes, and the write position is moved behind it without another test.

`shows_shiftLeft`: all the same, an operand is appended to the buffer as a whole or not at all.
`stream_bounded` says so of a sequence of operands.

What `snprintf` prints for a `double` with `"%.12g"` is given by `printDouble`.
-/

namespace TinyNetwork

open Bytes

def kSmallBuffer : ℕ := 4000

/-- `class GeneralTemplate`: the characters behind the pointer, and how many are meant. -/
structure GeneralTemplate where
  data_ : Bytes
  length_ : IntegerType.int.Value
  length_le : length_.val ≤ data_.length

namespace LogStream

def kMaxNumericSize : ℤ := 48

/-- What `operator<<` accepts; a `float` is a `double`, and a `const void *` is taken for a C
string. -/
inductive Operand (Double : Type)
  | integer (T : IntegerType) (v : T.Value)
  | double (v : Double)
  | char (c : UInt8)
  | cString (str : Option Bytes)
  | string (str : Bytes)
  | buffer (buf : FixedBuffer kSmallBuffer)
  | generalTemplate (g : GeneralTemplate)

/-- `char digits[]`. -/
def digits : Bytes := ascii "9876543210123456789"

/-- `zero[digit]`, where `zero` is `digits + 9`. -/
def zero (digit : ℤ) : UInt8 := digits.getD (9 + digit).toNat 0

/-- The loop of `formatInteger`, given up after a number of turns. -/
def formatLoop : ℕ → ℤ → Bytes
  | 0, _ => []
  | n + 1, v => if 0 < v then zero (v.tmod 10) :: formatLoop n (v.tdiv 10) else []

/-- The characters between `start` and `cur` in front of `std::reverse`; a value that is not
negative is the bound on its own number of digits. -/
def integerChars (T : IntegerType) (v : ℤ) : Bytes :=
  let negative := decide (v < 0)
  let v := if negative then T.wrap (-v) else v
  formatLoop v.toNat v ++ if negative then ascii "-" else []

/-- The type with which `operator<<` calls `formatInteger`. -/
def formatType : IntegerType → IntegerType
  | .short => .int
  | .unsignedShort => .unsignedInt
  | T => T

end LogStream

/-- `buffer_`. -/
abbrev LogStream := FixedBuffer.Raw kSmallBuffer

namespace LogStream

open FixedBuffer

variable {Double : Type} (printDouble : Double → Bytes)

def formatInteger (s : LogStream) (T : IntegerType) (v : ℤ) : Option LogStream :=
  if kMaxNumericSize ≤ s.avail then
    let chars := integerChars T v
    (s.store (chars ++ [0])).bind fun s =>
      (s.store chars.reverse).map fun s => s.add chars.length
  else some s

/-- `snprintf` into `kMaxNumericSize` bytes, which also counts what it cuts off. -/
def formatDouble (s : LogStream) (printed : Bytes) : Option LogStream :=
  if kMaxNumericSize ≤ s.avail then
    (s.store (snprintf kMaxNumericSize.toNat printed ++ [0])).map fun s => s.add printed.length
  else some s

/-- `strlen`. -/
def strlen (str : Bytes) : ℕ := (str.takeWhile (· != 0)).length

/-- `operator<<`. -/
def shiftLeft (s : LogStream) : Operand Double → Option LogStream
  | .integer T v => formatInteger s (formatType T) v.val
  | .double v => formatDouble s (printDouble v)
  | .char c => s.append [c] 1
  | .cString (some str) => s.append str (strlen str)
  | .cString none => s.append (ascii "(null)") 6
  | .string str => s.append str str.length
  | .buffer buf => s.append buf.data buf.data.length
  | .generalTemplate g => s.append g.data_ (toSizeT g.length_.val)

/-- A sequence of `<<`. -/
def stream (s : LogStream) : List (Operand Double) → Option LogStream
  | [] => some s
  | op :: ops => (shiftLeft printDouble s op).bind fun s => stream s ops

/-! ### Numbers are short -/

theorem length_formatLoop_le {n k : ℕ} {v : ℤ} (h : v < 10 ^ k) : (formatLoop n v).length ≤ k := by
  induction n generalizing k v with
  | zero => exact Nat.zero_le _
  | succ n ih =>
    rw [formatLoop]
    split_ifs with hpos
    · cases k with
      | zero =>
        rw [pow_zero] at h
        omega
      | succ k =>
        have hdiv : v.tdiv 10 < 10 ^ k := by
          rw [Int.tdiv_eq_ediv_of_nonneg hpos.le]
          rw [pow_succ] at h
          omega
        exact Nat.succ_le_succ (ih hdiv)
    · exact Nat.zero_le _

theorem length_integerChars_lt (T : IntegerType) {v : ℤ} (h : v ≤ T.maxValue) :
    (integerChars T v).length < 22 := by
  have hmax : T.maxValue < 10 ^ 20 := by cases T <;> decide
  unfold integerChars
  by_cases hneg : v < 0
  · simp only [hneg, decide_true, if_true, List.length_append]
    have hlen := length_formatLoop_le (n := (T.wrap (-v)).toNat)
      (lt_of_le_of_lt (T.wrap_le_max (-v)) hmax)
    have hsign : (ascii "-").length = 1 := rfl
    omega
  · simp only [hneg, decide_false, Bool.false_eq_true, if_false, List.append_nil]
    have hlen := length_formatLoop_le (n := v.toNat) (lt_of_le_of_lt h hmax)
    omega

/-! ### What an operand is rendered to -/

/-- The bytes of an operand when nothing is cut. -/
def rendering : Operand Double → Bytes
  | .integer T v => (integerChars (formatType T) v.val).reverse
  | .double v => printDouble v
  | .char c => [c]
  | .cString (some str) => str.takeWhile (· != 0)
  | .cString none => ascii "(null)"
  | .string str => str
  | .buffer buf => buf.data
  | .generalTemplate g => g.data_.take g.length_.val.toNat

/-- What `operator<<` does to the buffer: the rendering is appended, if there is room enough for a
number, and if the length is not negative. -/
def put (f : FixedBuffer kSmallBuffer) (op : Operand Double) : FixedBuffer kSmallBuffer :=
  match op with
  | .integer _ _ | .double _ =>
    if kMaxNumericSize ≤ f.avail then f.append (rendering printDouble op) else f
  | .generalTemplate g =>
    if 0 ≤ g.length_.val then f.append (rendering printDouble op) else f
  | op => f.append (rendering printDouble op)

/-- Either the rendering goes to `append` or nothing happens. -/
theorem put_cases (f : FixedBuffer kSmallBuffer) (op : Operand Double) :
    put printDouble f op = f ∨ put printDouble f op = f.append (rendering printDouble op) := by
  unfold put
  split
  · exact (ite_eq_or_eq _ _ _).symm
  · exact (ite_eq_or_eq _ _ _).symm
  · exact (ite_eq_or_eq _ _ _).symm
  · exact .inr rfl

/-- Either the whole rendering or nothing. -/
theorem data_put (f : FixedBuffer kSmallBuffer) (op : Operand Double) :
    (put printDouble f op).data = f.data ∨
      (put printDouble f op).data = f.data ++ rendering printDouble op := by
  rcases put_cases printDouble f op with hput | hput
  · exact .inl (by rw [hput])
  · rw [hput]
    by_cases hlt : (rendering printDouble op).length < f.avail
    · exact .inr (data_append hlt)
    · exact .inl (by rw [append_of_le (by omega)])

theorem length_append_lt {f : FixedBuffer kSmallBuffer} (h : f.length < kSmallBuffer) (bs : Bytes) :
    (f.append bs).length < kSmallBuffer := by
  by_cases hlt : bs.length < f.avail
  · have hdata := congrArg List.length (data_append hlt)
    rw [List.length_append] at hdata
    unfold FixedBuffer.avail FixedBuffer.length at *
    omega
  · rwa [append_of_le (by omega)]

/-- One byte of the array stays free. -/
theorem length_put_lt {f : FixedBuffer kSmallBuffer} (h : f.length < kSmallBuffer)
    (op : Operand Double) : (put printDouble f op).length < kSmallBuffer := by
  rcases put_cases printDouble f op with hput | hput
  · rwa [hput]
  · rw [hput]
    exact length_append_lt h _

theorem kSmallBuffer_lt : kSmallBuffer < 2 ^ 31 := by decide

/-- Bytes behind the write position do not show. -/
theorem shows_store {s t : LogStream} {f : FixedBuffer kSmallBuffer} (h : s.Shows f) {bs : Bytes}
    (hstore : s.store bs = some t) : t.Shows f := by
  obtain ⟨data, hdata, rfl⟩ := Option.map_eq_some_iff.1 hstore
  have hfront := Block.front_of_store hdata (Nat.zero_le _)
  rw [Nat.add_zero, List.take_zero, List.append_nil] at hfront
  exact ⟨h.cur, hfront.trans h.front⟩

/-- The two writes of `formatInteger`: the characters with a terminator, and their reversal. -/
theorem formatInteger_eq {s : LogStream} {f : FixedBuffer kSmallBuffer} (h : s.Shows f)
    (T : IntegerType) {v : ℤ} (hv : v ≤ T.maxValue) (hroom : 48 ≤ f.avail) :
    ∃ t u, s.store (integerChars T v ++ [0]) = some t ∧
      t.store (integerChars T v).reverse = some u ∧
      formatInteger s T v = some (u.add (integerChars T v).reverse.length) := by
  have hlen := length_integerChars_lt T hv
  obtain ⟨t, ht⟩ := h.exists_store (integerChars T v ++ [0])
    (by rw [List.length_append, List.length_singleton]; omega)
  obtain ⟨u, hu⟩ := (shows_store h ht).exists_store (integerChars T v).reverse
    (by rw [List.length_reverse]; omega)
  refine ⟨t, u, ht, hu, ?_⟩
  have hroom : kMaxNumericSize ≤ s.avail := by
    rw [h.avail kSmallBuffer_lt]
    exact Int.ofNat_le.2 hroom
  unfold formatInteger
  rw [if_pos hroom]
  simp [ht, hu]

theorem shows_formatInteger {s : LogStream} {f : FixedBuffer kSmallBuffer} (h : s.Shows f)
    (T : IntegerType) {v : ℤ} (hv : v ≤ T.maxValue) :
    ∃ t, formatInteger s T v = some t ∧
      t.Shows (if kMaxNumericSize ≤ f.avail then f.append (integerChars T v).reverse else f) := by
  have hlen := length_integerChars_lt T hv
  split_ifs with hroom
  · have hroom : 48 ≤ f.avail := Int.ofNat_le.1 hroom
    obtain ⟨t, u, ht, hu, heq⟩ := formatInteger_eq h T hv hroom
    refine ⟨_, heq, (shows_store h ht).store_add [] ?_ ?_⟩
    · rw [List.append_nil]
      exact hu
    · rw [List.length_reverse]
      omega
  · refine ⟨s, ?_, h⟩
    unfold formatInteger
    rw [h.avail kSmallBuffer_lt, if_neg hroom]

theorem shows_formatDouble {s : LogStream} {f : FixedBuffer kSmallBuffer} (h : s.Shows f)
    {printed : Bytes} (hprint : printed.length < 48) :
    ∃ t, formatDouble s printed = some t ∧
      t.Shows (if kMaxNumericSize ≤ f.avail then f.append printed else f) := by
  unfold formatDouble
  rw [h.avail kSmallBuffer_lt]
  split_ifs with hroom
  · have hroom : 48 ≤ f.avail := Int.ofNat_le.1 hroom
    rw [snprintf_of_lt (show printed.length < kMaxNumericSize.toNat from hprint)]
    obtain ⟨t, ht⟩ := h.exists_store (printed ++ [0])
      (by rw [List.length_append, List.length_singleton]; omega)
    exact ⟨t.add printed.length, by rw [ht]; rfl, h.store_add [0] ht (by omega)⟩
  · exact ⟨s, rfl, h⟩

theorem formatType_le {T : IntegerType} (v : T.Value) : v.val ≤ (formatType T).maxValue := by
  have hle := v.le_max
  cases T <;> simp only [formatType, IntegerType.maxValue, IntegerType.signed, IntegerType.width,
    if_true, Bool.false_eq_true, if_false] at hle ⊢ <;> omega

/-- **`operator<<`** writes nothing outside the array, and does to the buffer what `put` says. -/
theorem shows_shiftLeft {s : LogStream} {f : FixedBuffer kSmallBuffer} (h : s.Shows f)
    (hprint : ∀ v, (printDouble v).length < 48) (op : Operand Double) :
    ∃ t, shiftLeft printDouble s op = some t ∧ t.Shows (put printDouble f op) := by
  have htext : ∀ bs : Bytes, ∃ t, s.append bs bs.length = some t ∧ t.Shows (f.append bs) := by
    intro bs
    obtain ⟨t, ht, hshows⟩ := h.append kSmallBuffer_lt (le_refl bs.length)
    rw [List.take_length] at hshows
    exact ⟨t, ht, hshows⟩
  cases op with
  | integer T v => exact shows_formatInteger h (formatType T) (formatType_le v)
  | double v => exact shows_formatDouble h (hprint v)
  | char c => exact htext [c]
  | cString str =>
    cases str with
    | none => exact htext (ascii "(null)")
    | some str =>
      have hle : strlen str ≤ str.length := (List.takeWhile_prefix _).length_le
      obtain ⟨t, ht, hshows⟩ := h.append kSmallBuffer_lt hle
      refine ⟨t, ht, ?_⟩
      rw [strlen, ← List.prefix_iff_eq_take.1 (List.takeWhile_prefix _)] at hshows
      exact hshows
  | string str => exact htext str
  | buffer buf => exact htext buf.data
  | generalTemplate g =>
    have hmin := g.length_.min_le
    have hmax := g.length_.le_max
    have hle := g.length_le
    simp only [IntegerType.minValue, IntegerType.maxValue, IntegerType.signed, IntegerType.width,
      if_true] at hmin hmax
    unfold put
    dsimp only
    split_ifs with hneg
    · have hsize : toSizeT g.length_.val = g.length_.val.toNat :=
        toSizeT_of_nonneg hneg (by omega)
      obtain ⟨t, ht, hshows⟩ := h.append kSmallBuffer_lt
        (show g.length_.val.toNat ≤ g.data_.length by omega)
      exact ⟨t, by rw [shiftLeft, hsize]; exact ht, hshows⟩
    · -- a negative length is a huge `size_t`
      have havail := f.avail_le
      have hsize : toSizeT s.avail = f.avail := by
        rw [h.avail kSmallBuffer_lt, toSizeT_of_nonneg (by omega) (by
          have hlt := kSmallBuffer_lt
          omega), Int.toNat_natCast]
      have hhuge : ¬ toSizeT g.length_.val < f.avail := by
        have hlt := kSmallBuffer_lt
        unfold toSizeT
        omega
      exact ⟨s, by rw [shiftLeft, Raw.append, hsize, if_neg hhuge], h⟩

/-! ### Sequences of operands -/

/-- A sequence of operands on the buffer. -/
def puts (f : FixedBuffer kSmallBuffer) (ops : List (Operand Double)) : FixedBuffer kSmallBuffer :=
  ops.foldl (put printDouble) f

theorem puts_append (f : FixedBuffer kSmallBuffer) (ops ops' : List (Operand Double)) :
    puts printDouble f (ops ++ ops') = puts printDouble (puts printDouble f ops) ops' :=
  List.foldl_append

theorem shows_stream {s : LogStream} {f : FixedBuffer kSmallBuffer} (h : s.Shows f)
    (hprint : ∀ v, (printDouble v).length < 48) (ops : List (Operand Double)) :
    ∃ t, stream printDouble s ops = some t ∧ t.Shows (puts printDouble f ops) := by
  induction ops generalizing s f with
  | nil => exact ⟨s, rfl, h⟩
  | cons op ops ih =>
    obtain ⟨u, hu, hshows⟩ := shows_shiftLeft printDouble h hprint op
    obtain ⟨t, ht, hend⟩ := ih hshows
    exact ⟨t, by rw [stream, hu, Option.bind_some, ht], hend⟩

theorem length_puts_lt {f : FixedBuffer kSmallBuffer} (h : f.length < kSmallBuffer)
    (ops : List (Operand Double)) : (puts printDouble f ops).length < kSmallBuffer := by
  induction ops generalizing f with
  | nil => exact h
  | cons op ops ih => exact ih (length_put_lt printDouble h op)

/-- The content is made of whole renderings, in the order of the operands. -/
theorem data_puts (f : FixedBuffer kSmallBuffer) (ops : List (Operand Double)) :
    ∃ kept : List (Operand Double), kept.Sublist ops ∧
      (puts printDouble f ops).data = f.data ++ (kept.map (rendering printDouble)).flatten := by
  induction ops generalizing f with
  | nil => exact ⟨[], List.Sublist.refl _, (List.append_nil _).symm⟩
  | cons op ops ih =>
    obtain ⟨kept, hsub, hdata⟩ := ih (put printDouble f op)
    rcases data_put printDouble f op with hput | hput
    · rw [hput] at hdata
      exact ⟨kept, hsub.cons op, hdata⟩
    · rw [hput, List.append_assoc] at hdata
      exact ⟨op :: kept, hsub.cons_cons op, hdata⟩

/-- **The stream stays in bounds and drops whole operands only.**  After any sequence of operands
no byte was written outside the array, the write position is inside it, and the content is made of
the whole renderings of some of the operands, in their order. -/
theorem stream_bounded (hprint : ∀ v, ((printDouble v).length : ℤ) < kMaxNumericSize)
    (data : Block UInt8 kSmallBuffer) (ops : List (Operand Double)) :
    ∃ s, stream printDouble (Raw.new data) ops = some s ∧ s.length ≤ kSmallBuffer - 1 ∧
      ∃ kept : List (Operand Double), kept.Sublist ops ∧
        s.toString = (kept.map (rendering printDouble)).flatten := by
  obtain ⟨s, hs, hshows⟩ := shows_stream printDouble (Raw.shows_new data)
    (fun v => Int.ofNat_lt.1 (hprint v)) ops
  have hlt := length_puts_lt printDouble (f := FixedBuffer.new) (by decide) ops
  obtain ⟨kept, hsub, hdata⟩ := data_puts printDouble FixedBuffer.new ops
  refine ⟨s, hs, ?_, kept, hsub, ?_⟩
  · rw [hshows.length kSmallBuffer_lt]
    omega
  · rw [hshows.toString kSmallBuffer_lt]
    exact hdata

/-- Two doubles and what is printed for them. -/
def printTwo (b : Bool) : Bytes := if b then ascii "3.14" else ascii "-1e+100"

theorem length_printTwo_lt (b : Bool) : (printTwo b).length < 48 := by
  cases b <;> decide

/-- A stream without content. -/
def fresh : LogStream := Raw.new (Block.replicate kSmallBuffer 0)

/-- A text that leaves no room for the number behind it. -/
def longText : List (Operand Bool) :=
  [.string (List.replicate 3990 120), .double true, .char 33]

theorem stream_bounded_longText :
    ∃ s, stream printTwo fresh longText = some s ∧ s.length ≤ 3999 ∧
      ∃ kept : List (Operand Bool), kept.Sublist longText ∧
        s.toString = (kept.map (rendering printTwo)).flatten :=
  stream_bounded printTwo (fun b => Int.ofNat_lt.2 (length_printTwo_lt b)) _ _

end LogStream

end TinyNetwork
