import TinyNetwork.Log.Logging
import TinyNetwork.Log.FormatInteger

/-!
# How a record ends

`finish` appends the file name and the line number as five operands, and each of them is dropped if
there is no room for it.

`record_complete_iff`: the record ends with them if and only if all five fit and the line number is
formatted as it should be (`Fits`), or what was logged happens to supply what was dropped
(`Supplied`).
-/

namespace TinyNetwork

open Bytes FixedBuffer LogStream

namespace Logger

/-- How a record should end. -/
def trailer (file : Bytes) (line : ℤ) : Bytes :=
  ascii " - " ++ file ++ ascii ":" ++ decimalInt line ++ ascii "\n"

/-- The free bytes behind the content of a stream. -/
def room (content : Bytes) : ℕ := kSmallBuffer - content.length

/-- A line number that is neither zero nor the least `int`. -/
def LineShown (line : ℤ) : Prop := line ≠ 0 ∧ line ≠ IntegerType.int.minValue

/-- There is room for the file name, and behind it for a number. -/
def Fits (content file : Bytes) (line : ℤ) : Prop :=
  52 + file.length ≤ room content ∧ LineShown line

/-- What is dropped stands at the end of the content already: the file name if it is too long for
the room, the separator if there is room for three bytes at most, or everything. -/
def Supplied (content file : Bytes) (line : ℤ) : Prop :=
  (52 ≤ room content ∧ room content ≤ file.length + 3 ∧ LineShown line ∧
    ascii " - " ++ file <:+ content ++ ascii " - ") ∨
  (room content ≤ 3 ∧ room content = file.length + 1 ∧ trailer file line <:+ content ++ file) ∨
  (room content = 1 ∧ trailer file line <:+ content)

/-! ### The end of the trailer -/

/-- The trailer ends with a digit and a newline. -/
theorem exists_trailer_eq (file : Bytes) (line : ℤ) :
    ∃ front k, k < 10 ∧ trailer file line = front ++ [ofChar (Nat.digitChar k), 10] := by
  have hlast : ∃ front k, k < 10 ∧ decimalInt line = front ++ [ofChar (Nat.digitChar k)] := by
    have hk : line.natAbs % 10 < 10 := Nat.mod_lt _ (by omega)
    obtain ⟨front, hfront⟩ : ∃ front, decimal line.natAbs =
        front ++ [ofChar (Nat.digitChar (line.natAbs % 10))] := ⟨_, decimal_eq _⟩
    unfold decimalInt
    rw [hfront]
    split_ifs
    · exact ⟨_, _, hk, (List.append_assoc _ _ _).symm⟩
    · exact ⟨_, _, hk, rfl⟩
  obtain ⟨front, k, hk, hlast⟩ := hlast
  refine ⟨ascii " - " ++ file ++ ascii ":" ++ front, k, hk, ?_⟩
  rw [trailer, hlast]
  simp [ascii, ofChar]

theorem newline_of_trailer_suffix {x file : Bytes} {line : ℤ} {b : UInt8}
    (h : trailer file line <:+ x ++ [b]) : b = 10 := by
  obtain ⟨front, k, -, heq⟩ := exists_trailer_eq file line
  have hsplit : front ++ [ofChar (Nat.digitChar k), 10] =
      (front ++ [ofChar (Nat.digitChar k)]) ++ [10] := by simp
  rw [heq, hsplit] at h
  have hlast := (List.suffix_append_inj_of_length_eq (show [10].length = [b].length from rfl)).1 h
  exact (List.singleton_inj.1 hlast.2).symm

theorem digit_of_trailer_suffix {x file : Bytes} {line : ℤ} {b : UInt8}
    (h : trailer file line <:+ x ++ [b, 10]) : ∃ k < 10, b = ofChar (Nat.digitChar k) := by
  obtain ⟨front, k, hk, heq⟩ := exists_trailer_eq file line
  rw [heq] at h
  have hlast := (List.suffix_append_inj_of_length_eq
    (show [ofChar (Nat.digitChar k), 10].length = [b, 10].length from rfl)).1 h
  exact ⟨k, hk, (List.cons.inj hlast.2).1.symm⟩

theorem digit_ne {k : ℕ} (h : k < 10) :
    ofChar (Nat.digitChar k) ≠ 58 ∧ ofChar (Nat.digitChar k) ≠ 45 := by
  revert h
  revert k
  decide

/-- With a number in front of the newline, it is the number that decides. -/
theorem trailer_suffix_number {d file : Bytes} {line : ℤ}
    (hmin : IntegerType.int.minValue ≤ line) :
    trailer file line <:+ d ++ ascii ":" ++ (integerChars .int line).reverse ++ ascii "\n" ↔
      LineShown line ∧ ascii " - " ++ file <:+ d := by
  by_cases hline : LineShown line
  · rw [rendering_integer hmin hline.1 hline.2, trailer, List.suffix_append_self_iff,
      List.suffix_append_self_iff, List.suffix_append_self_iff]
    exact ⟨fun h => ⟨hline, h⟩, fun h => h.2⟩
  · refine iff_of_false (fun h => ?_) fun h => hline h.1
    by_cases hzero : line = 0
    · rw [hzero, integerChars_zero, List.reverse_nil, List.append_nil, List.append_assoc] at h
      obtain ⟨k, hk, hdigit⟩ := digit_of_trailer_suffix (b := 58) h
      exact (digit_ne hk).1 hdigit.symm
    · obtain rfl : line = IntegerType.int.minValue := by
        by_contra hne
        exact hline ⟨hzero, hne⟩
      rw [integerChars_minValue (by decide), List.append_assoc] at h
      obtain ⟨k, hk, hdigit⟩ := digit_of_trailer_suffix (b := 45) h
      exact (digit_ne hk).2 hdigit.symm

theorem notMem_decimalInt_space (line : ℤ) : (32 : UInt8) ∉ decimalInt line := by
  have hdigits : (32 : UInt8) ∉ decimal line.natAbs := notMem_decimal (by decide) _
  unfold decimalInt
  split_ifs
  · rw [List.mem_append]
    rintro (hsign | hmem)
    · exact absurd hsign (by decide)
    · exact hdigits hmem
  · exact hdigits

/-- A string that starts with `a`, with something behind it in which there is no `a`, does not end
with itself: too many of the `a`s would be needed. -/
theorem not_append_suffix {a : UInt8} {v s c : Bytes} (ha : a ∉ s) (hs : s ≠ []) :
    ¬ (a :: v) ++ s <:+ c ++ (a :: v) := by
  rintro ⟨y, hy⟩
  have hlen := congrArg List.length hy
  have hpos := List.length_pos_iff.2 hs
  simp only [List.length_append] at hlen
  rcases List.append_eq_append_iff.1 hy with ⟨p, rfl, hshift⟩ | ⟨q, rfl, -⟩
  · rw [List.length_append] at hlen
    have hcount := congrArg (List.count a) hshift
    rw [List.count_append, List.count_append, List.count_eq_zero_of_not_mem ha] at hcount
    have hzero : p.count a = 0 := by omega
    cases p with
    | nil =>
      rw [List.length_nil] at hlen
      omega
    | cons b p =>
      have hb : a = b := (List.cons.inj hshift).1
      rw [← hb, List.count_cons_self] at hzero
      omega
  · rw [List.length_append] at hlen
    omega

/-- A separator and a file name do not end with a trailer for that file. -/
theorem not_trailer_suffix_name (c file : Bytes) (line : ℤ) :
    ¬ trailer file line <:+ c ++ (ascii " - " ++ file) := by
  have hspace : (32 : UInt8) ∉ ascii ":" ++ decimalInt line ++ ascii "\n" := by
    rw [List.mem_append, List.mem_append]
    rintro ((h | h) | h)
    · exact absurd h (by decide)
    · exact notMem_decimalInt_space line h
    · exact absurd h (by decide)
  have htrailer : trailer file line =
      (ascii " - " ++ file) ++ (ascii ":" ++ decimalInt line ++ ascii "\n") := by
    rw [trailer]
    simp only [List.append_assoc]
  rw [htrailer]
  exact not_append_suffix hspace (by simp [ascii])

/-! ### What `finish` leaves of the trailer -/

/-- A text operand. -/
def keep (c bs : Bytes) : Bytes := if bs.length < room c then c ++ bs else c

/-- A number. -/
def keepNumber (c bs : Bytes) : Bytes := if 48 ≤ room c then keep c bs else c

theorem data_append_eq_keep (f : FixedBuffer kSmallBuffer) (bs : Bytes) :
    (f.append bs).data = keep f.data bs := by
  unfold keep
  split_ifs with h
  · exact data_append h
  · rw [append_of_le (Nat.le_of_not_lt h)]

/-- The last three operands. -/
def keepLine (c : Bytes) (line : ℤ) : Bytes :=
  keep (keepNumber (keep c (ascii ":")) (integerChars .int line).reverse) (ascii "\n")

theorem data_finish {Double : Type} (printDouble : Double → Bytes) (f : FixedBuffer kSmallBuffer)
    (g : GeneralTemplate) (hg : g.length_.val = g.data_.length) (line : IntegerType.int.Value) :
    (puts printDouble f [literal " - ", .generalTemplate g, literal ":", .integer .int line,
      .char 10]).data = keepLine (keep (keep f.data (ascii " - ")) g.data_) line.val := by
  have hliteral : ∀ f : FixedBuffer kSmallBuffer,
      (put printDouble f (.cString (some (ascii " - ")))).data = keep f.data (ascii " - ") :=
    fun f => data_append_eq_keep f _
  have hcolon : ∀ f : FixedBuffer kSmallBuffer,
      (put printDouble f (.cString (some (ascii ":")))).data = keep f.data (ascii ":") :=
    fun f => data_append_eq_keep f _
  have hname : ∀ f : FixedBuffer kSmallBuffer,
      (put printDouble f (.generalTemplate g)).data = keep f.data g.data_ := by
    intro f
    show (if 0 ≤ g.length_.val then f.append (g.data_.take g.length_.val.toNat) else f).data = _
    rw [if_pos (by omega), hg, Int.toNat_natCast, List.take_length]
    exact data_append_eq_keep f _
  have hnumber : ∀ f : FixedBuffer kSmallBuffer, (put printDouble f (.integer .int line)).data =
      keepNumber f.data (integerChars .int line.val).reverse := by
    intro f
    show (if kMaxNumericSize ≤ f.avail then f.append _ else f).data = _
    unfold keepNumber
    split_ifs with h h' h'
    · exact data_append_eq_keep f _
    · exact absurd (Int.ofNat_le.1 h) h'
    · exact absurd (Int.ofNat_le.2 h') h
    · rfl
  have hnewline : ∀ f : FixedBuffer kSmallBuffer,
      (put printDouble f (.char 10)).data = keep f.data (ascii "\n") :=
    fun f => data_append_eq_keep f _
  unfold puts literal keepLine
  simp only [List.foldl_cons, List.foldl_nil]
  rw [hnewline, hnumber, hcolon, hname, hliteral]

theorem room_append (c bs : Bytes) : room (c ++ bs) = room c - bs.length := by
  unfold room
  rw [List.length_append, Nat.sub_sub]

/-- What the last three operands do with the room that is left. -/
theorem keepLine_cases {d : Bytes} (hroom : 1 ≤ room d) {line : ℤ}
    (hmax : line ≤ IntegerType.int.maxValue) :
    (49 ≤ room d ∧
      keepLine d line = d ++ ascii ":" ++ (integerChars .int line).reverse ++ ascii "\n") ∨
    (2 ≤ room d ∧ room d < 49 ∧
      (keepLine d line = d ++ ascii ":" ∨ keepLine d line = d ++ ascii ":" ++ ascii "\n")) ∨
    (room d = 1 ∧ keepLine d line = d) := by
  have hcolon : (ascii ":").length = 1 := rfl
  have hnewline : (ascii "\n").length = 1 := rfl
  have hlen := length_integerChars_lt .int hmax
  rw [← List.length_reverse] at hlen
  have hroomColon := room_append d (ascii ":")
  unfold keepLine
  by_cases hone : room d = 1
  · refine .inr (.inr ⟨hone, ?_⟩)
    have hdrop : ∀ bs : Bytes, bs.length = 1 → keep d bs = d := fun bs hbs => if_neg (by omega)
    rw [hdrop _ hcolon, keepNumber, if_neg (by omega), hdrop _ hnewline]
  · rw [show keep d (ascii ":") = d ++ ascii ":" from if_pos (by omega)]
    by_cases hnumber : 49 ≤ room d
    · refine .inl ⟨hnumber, ?_⟩
      have hroomNumber := room_append (d ++ ascii ":") (integerChars .int line).reverse
      rw [keepNumber, if_pos (by omega), show keep (d ++ ascii ":") _ = _ from if_pos (by omega)]
      exact if_pos (by omega)
    · refine .inr (.inl ⟨by omega, by omega, ?_⟩)
      rw [keepNumber, if_neg (by omega), keep]
      split_ifs
      · exact .inr rfl
      · exact .inl rfl

/-- The trailer stands behind `d` if there is room for a number, and without any room if it stands
there already. -/
theorem trailer_suffix_keepLine {d file : Bytes} (hroom : 1 ≤ room d) {line : ℤ}
    (hmin : IntegerType.int.minValue ≤ line) (hmax : line ≤ IntegerType.int.maxValue) :
    trailer file line <:+ keepLine d line ↔
      (49 ≤ room d ∧ LineShown line ∧ ascii " - " ++ file <:+ d) ∨
        (room d = 1 ∧ trailer file line <:+ d) := by
  rcases keepLine_cases hroom hmax with ⟨hlarge, heq⟩ | ⟨htwo, hsmall, heq⟩ | ⟨hone, heq⟩
  · rw [heq, trailer_suffix_number hmin]
    constructor
    · exact fun h => .inl ⟨hlarge, h⟩
    · rintro (⟨-, h⟩ | ⟨hone, -⟩)
      · exact h
      · omega
  · refine iff_of_false ?_ (by omega)
    rcases heq with heq | heq
    · rw [heq]
      intro h
      exact absurd (newline_of_trailer_suffix (b := 58) h) (by decide)
    · rw [heq, List.append_assoc]
      intro h
      obtain ⟨k, hk, hdigit⟩ := digit_of_trailer_suffix (b := 58) h
      exact (digit_ne hk).1 hdigit.symm
  · rw [heq]
    constructor
    · exact fun h => .inr ⟨hone, h⟩
    · rintro (⟨hlarge, -⟩ | ⟨-, h⟩)
      · omega
      · exact h

/-- When the content ends with the trailer after `finish`. -/
theorem trailer_suffix_finish {c file : Bytes} (hroom : 1 ≤ room c) {line : ℤ}
    (hmin : IntegerType.int.minValue ≤ line) (hmax : line ≤ IntegerType.int.maxValue) :
    trailer file line <:+ keepLine (keep (keep c (ascii " - ")) file) line ↔
      Fits c file line ∨ Supplied c file line := by
  have hsep : (ascii " - ").length = 3 := rfl
  unfold Fits Supplied
  by_cases hthree : 3 < room c
  · rw [show keep c (ascii " - ") = c ++ ascii " - " from if_pos (by omega)]
    have hroomSep : room (c ++ ascii " - ") = room c - 3 := room_append _ _
    by_cases hname : file.length < room c - 3
    · have hkeep : keep (c ++ ascii " - ") file = c ++ (ascii " - " ++ file) := by
        rw [keep, if_pos (by omega), List.append_assoc]
      have hroomName : room (c ++ (ascii " - " ++ file)) = room c - 3 - file.length := by
        rw [← List.append_assoc, room_append, hroomSep]
      rw [hkeep, trailer_suffix_keepLine (by omega) hmin hmax]
      constructor
      · rintro (⟨hlarge, hline, -⟩ | ⟨-, h⟩)
        · exact .inl ⟨by omega, hline⟩
        · exact absurd h (not_trailer_suffix_name c file line)
      · rintro (⟨hlarge, hline⟩ | ⟨-, hlong, -⟩ | ⟨hsmall, -⟩ | ⟨hone, -⟩)
        · exact .inl ⟨by omega, hline, List.suffix_append _ _⟩
        all_goals omega
    · rw [show keep (c ++ ascii " - ") file = c ++ ascii " - " from if_neg (by omega),
        trailer_suffix_keepLine (by omega) hmin hmax]
      constructor
      · rintro (⟨hlarge, hline, h⟩ | ⟨-, h⟩)
        · exact .inr (.inl ⟨by omega, by omega, hline, h⟩)
        · rw [show c ++ ascii " - " = (c ++ ascii " -") ++ [32] by simp [ascii, ofChar]] at h
          exact absurd (newline_of_trailer_suffix h) (by decide)
      · rintro (⟨hlarge, -⟩ | ⟨hlarge, -, hline, h⟩ | ⟨hsmall, -⟩ | ⟨hone, -⟩)
        · omega
        · exact .inl ⟨by omega, hline, h⟩
        all_goals omega
  · rw [show keep c (ascii " - ") = c from if_neg (by omega)]
    by_cases hname : file.length < room c
    · have hroomName := room_append c file
      rw [show keep c file = c ++ file from if_pos hname,
        trailer_suffix_keepLine (by omega) hmin hmax]
      constructor
      · rintro (⟨hlarge, -⟩ | ⟨hone, h⟩)
        · omega
        · exact .inr (.inr (.inl ⟨by omega, by omega, h⟩))
      · rintro (⟨hlarge, -⟩ | ⟨hlarge, -⟩ | ⟨-, hlen, h⟩ | ⟨hone, h⟩)
        · omega
        · omega
        · exact .inr ⟨by omega, h⟩
        · obtain rfl : file = [] := List.length_eq_zero_iff.1 (by omega)
          exact .inr ⟨by omega, by rwa [List.append_nil]⟩
    · rw [show keep c file = c from if_neg (by omega), trailer_suffix_keepLine hroom hmin hmax]
      constructor
      · rintro (⟨hlarge, -⟩ | ⟨hone, h⟩)
        · omega
        · exact .inr (.inr (.inr ⟨hone, h⟩))
      · rintro (⟨hlarge, -⟩ | ⟨hlarge, -⟩ | ⟨-, hlen, -⟩ | ⟨hone, h⟩)
        · omega
        · omega
        · omega
        · exact .inr ⟨hone, h⟩

theorem length_lt_of_trailer_suffix {c file : Bytes} {line : ℤ} (h : trailer file line <:+ c) :
    file.length < c.length := by
  have hle := h.length_le
  have hcolon : (ascii ":").length = 1 := rfl
  unfold trailer at hle
  simp only [List.length_append] at hle
  omega

/-- A file name as long as the buffer never gets into a record, and what was logged cannot supply
it. -/
theorem length_lt_of_fits {c file : Bytes} (hroom : 1 ≤ room c) {line : ℤ}
    (h : Fits c file line ∨ Supplied c file line) : file.length < kSmallBuffer := by
  unfold room at hroom
  rcases h with ⟨h, -⟩ | ⟨-, -, -, h⟩ | ⟨hsmall, hlen, -⟩ | ⟨-, h⟩
  · unfold room at h
    omega
  · have hle := h.length_le
    simp only [List.length_append] at hle
    omega
  · unfold room at hsmall hlen
    omega
  · have hlt := length_lt_of_trailer_suffix h
    omega

variable {Double : Type} (printDouble : Double → Bytes) (info : ThreadInfo)

/-- What the destructor hands to `g_output`. -/
theorem destroy_of_open {args : Args} {l : Logger} {f : FixedBuffer kSmallBuffer}
    (h : Open args l f) (hprint : ∀ v, (printDouble v).length < 48) :
    ∃ msg rest, destroy printDouble l = some (.output msg :: rest) ∧
      (trailer (SourceFile.new args.file).data_ args.line.val <:+ msg ↔
        Fits f.data (SourceFile.new args.file).data_ args.line.val ∨
        Supplied f.data (SourceFile.new args.file).data_ args.line.val) := by
  obtain ⟨s, hfinish, hshows⟩ := shows_into printDouble h.shows hprint _
  refine ⟨s.toString, _, by rw [destroy, finish, hfinish]; rfl, ?_⟩
  have hroom : 1 ≤ room f.data := by
    have hfree := h.shows.free
    unfold FixedBuffer.length at hfree
    unfold room
    omega
  have hsize : l.basename_.data_.length < 2 ^ 31 →
      l.basename_.size_.val = l.basename_.data_.length := by
    rw [h.basename]
    exact SourceFile.size_new
  rw [hshows.toString, ← h.line, ← h.basename]
  by_cases hlen : l.basename_.data_.length < kSmallBuffer
  · have hsmall := kSmallBuffer_lt
    rw [data_finish printDouble f _ (hsize (by omega)) l.line_]
    exact trailer_suffix_finish hroom l.line_.min_le l.line_.le_max
  · refine iff_of_false (fun hend => ?_) fun hfits => hlen (length_lt_of_fits hroom hfits)
    have hlt := length_lt_of_trailer_suffix hend
    have hfree := hshows.free
    unfold FixedBuffer.length at hfree
    omega

/-- **When a record is a complete line.**  For every way to construct a logger and every sequence of
operands that is streamed into it, the bytes that the destructor hands to `g_output` end with the
file name, the line number and a newline if and only if there is room for them behind the content,
or the content supplies what is dropped. -/
theorem record_complete_iff (hprint : ∀ v, ((printDouble v).length : ℤ) < kMaxNumericSize)
    (data : Block UInt8 kSmallBuffer) (args : Args) (ops : List (Operand Double)) :
    ∃ l msg rest, (new printDouble info data args).bind (into printDouble · ops) = some l ∧
      destroy printDouble l = some (.output msg :: rest) ∧
      (trailer (SourceFile.new args.file).data_ args.line.val <:+ msg ↔
        Fits l.stream_.toString (SourceFile.new args.file).data_ args.line.val ∨
        Supplied l.stream_.toString (SourceFile.new args.file).data_ args.line.val) := by
  have hprint : ∀ v, (printDouble v).length < 48 := fun v => Int.ofNat_lt.1 (hprint v)
  obtain ⟨l₀, hnew, hopen₀⟩ := open_new printDouble info args hprint data
  obtain ⟨l, hinto, -, hopen⟩ := open_into printDouble hopen₀ hprint ops
  obtain ⟨msg, rest, hdestroy, hiff⟩ := destroy_of_open printDouble hopen hprint
  rw [← hopen.shows.toString] at hiff
  exact ⟨l, msg, rest, by rw [hnew, Option.bind_some, hinto], hdestroy, hiff⟩

/-- A thread at some time. -/
def thread : ThreadInfo where
  t_time := ⟨ascii "2023-04-05 06:07:08.000009" ++ List.replicate 38 0, by decide⟩
  t_cachedTid := ⟨1234, by decide, by decide⟩
  getErrnoMsg := fun _ => none

/-- A place in a source file. -/
def place : Args := .default (ascii "/src/main.cpp") ⟨42, by decide, by decide⟩

/-- A record with this text. -/
theorem exists_record (text : Bytes) :
    ∃ l, (new printTwo thread (Block.replicate kSmallBuffer 0) place).bind
        (into printTwo · [.string text]) = some l ∧
      Open place l ((puts printTwo FixedBuffer.new (openingOf thread place)).append text) := by
  obtain ⟨l₀, hnew, hopen₀⟩ := open_new printTwo thread place length_printTwo_lt
    (Block.replicate kSmallBuffer 0)
  obtain ⟨l, hinto, -, hopen⟩ := open_into printTwo hopen₀ length_printTwo_lt [.string text]
  exact ⟨l, by rw [hnew, Option.bind_some, hinto], hopen⟩

theorem length_opening :
    (puts printTwo FixedBuffer.new (openingOf thread place)).data.length = 38 := by decide

theorem record_complete_short :
    ∃ l msg rest, (new printTwo thread (Block.replicate kSmallBuffer 0) place).bind
        (into printTwo · [.string (ascii "hello")]) = some l ∧
      destroy printTwo l = some (.output msg :: rest) ∧
      trailer (ascii "main.cpp") 42 <:+ msg := by
  obtain ⟨l, msg, rest, hl, hdestroy, hiff⟩ := record_complete_iff printTwo thread
    (fun b => Int.ofNat_lt.2 (length_printTwo_lt b)) (Block.replicate kSmallBuffer 0) place
    [.string (ascii "hello")]
  obtain ⟨l', hl', hopen⟩ := exists_record (ascii "hello")
  obtain rfl := Option.some.inj (hl.symm.trans hl')
  refine ⟨l, msg, rest, hl, hdestroy, hiff.2 (.inl ⟨?_, by decide, by decide⟩)⟩
  rw [hopen.shows.toString]
  decide

/-- The text of this record leaves one byte of the buffer, and the record ends with the text. -/
theorem record_cut :
    ∃ l msg rest, (new printTwo thread (Block.replicate kSmallBuffer 0) place).bind
        (into printTwo · [.string (List.replicate 3961 120)]) = some l ∧
      destroy printTwo l = some (.output msg :: rest) ∧
      ¬ trailer (ascii "main.cpp") 42 <:+ msg := by
  obtain ⟨l, hl, hopen⟩ := exists_record (List.replicate 3961 120)
  obtain ⟨msg, rest, hdestroy, hiff⟩ := destroy_of_open printTwo hopen length_printTwo_lt
  refine ⟨l, msg, rest, hl, hdestroy, fun h => ?_⟩
  have hfits : (List.replicate 3961 (120 : UInt8)).length <
      (puts printTwo FixedBuffer.new (openingOf thread place)).avail := by
    rw [FixedBuffer.avail, FixedBuffer.length, length_opening, List.length_replicate]
    decide
  have hdata := data_append hfits
  have hroom : room ((puts printTwo FixedBuffer.new (openingOf thread place)).append
      (List.replicate 3961 120)).data = 1 := by
    rw [room, hdata, List.length_append, length_opening, List.length_replicate]
    rfl
  have hname : (SourceFile.new place.file).data_ = ascii "main.cpp" := by decide
  rcases hiff.1 h with ⟨hlarge, -⟩ | ⟨hlarge, -⟩ | ⟨-, hlen, -⟩ | ⟨-, hend⟩
  · omega
  · omega
  · rw [hroom, hname] at hlen
    exact absurd hlen (by decide)
  · rw [hdata, List.replicate_succ', ← List.append_assoc] at hend
    exact absurd (newline_of_trailer_suffix hend) (by decide)

end Logger

end TinyNetwork
