import TinyNetwork.Log.LogStream
import Mathlib.Data.List.DropRight

/-!
# `class Logger` (src/log/Logging.h, src/log/Logging.cpp)

A record is built in the stream of a `Logger`.  The constructor appends the time, the thread and the
level, the user appends what is to be logged, and the destructor appends the file name and the line
number and hands the content to `g_output`.

All of them go through `into`, so `shows_into` is what has to be known of them: nothing is written
outside the array, and one byte of it stays free.
-/

namespace TinyNetwork

open Bytes FixedBuffer LogStream

/-- `class SourceFile`: the part of a file name behind its last slash. -/
structure SourceFile where
  data_ : Bytes
  size_ : IntegerType.int.Value
  size_le : size_.val ≤ data_.length

/-- The constructor; `filename` is what lies behind the pointer. -/
def SourceFile.new (filename : Bytes) : SourceFile :=
  let data := (filename.takeWhile (· != 0)).rtakeWhile (· != 47)
  ⟨data, IntegerType.int.convert (strlen data), by
    have hle : strlen data ≤ data.length := (List.takeWhile_prefix _).length_le
    have hconvert := toInt_natCast_le (strlen data)
    rw [val_convert_int]
    omega⟩

/-- A short name is taken as a whole. -/
theorem SourceFile.size_new {filename : Bytes}
    (h : (SourceFile.new filename).data_.length < 2 ^ 31) :
    (SourceFile.new filename).size_.val = (SourceFile.new filename).data_.length := by
  have hnul : ∀ b ∈ (SourceFile.new filename).data_, (b != 0) = true := by
    intro b hb
    have hmem : b ∈ filename.takeWhile (· != 0) := (List.rtakeWhile_suffix _ _).subset hb
    exact List.mem_takeWhile_imp (p := (· != 0)) hmem
  have hlen : strlen (SourceFile.new filename).data_ = (SourceFile.new filename).data_.length := by
    rw [strlen, List.takeWhile_eq_self_iff.2 hnul]
  have hsize : (SourceFile.new filename).size_.val =
      toInt (strlen (SourceFile.new filename).data_) := by
    simp only [SourceFile.new, val_convert_int]
  rw [hsize, hlen]
  exact toInt_of_fits (by omega) (by omega)

inductive LogLevel
  | TRACE
  | DEBUG
  | INFO
  | WARN
  | ERROR
  | FATAL
  deriving DecidableEq

/-- `class Logger` with its `Impl`. -/
structure Logger where
  stream_ : LogStream
  level_ : LogLevel
  line_ : IntegerType.int.Value
  basename_ : SourceFile

namespace Logger

def getLevelName : LogLevel → Bytes
  | .TRACE => ascii "TRACE "
  | .DEBUG => ascii "DEBUG "
  | .INFO => ascii "INFO  "
  | .WARN => ascii "WARN  "
  | .ERROR => ascii "ERROR "
  | .FATAL => ascii "FATAL "

theorem length_getLevelName (level : LogLevel) : (getLevelName level).length = 6 := by
  cases level <;> rfl

/-- What a record takes from its thread: the time as `formatTime` printed it, the thread, and what
`strerror_r` says. -/
structure ThreadInfo where
  t_time : Block UInt8 64
  t_cachedTid : IntegerType.int.Value
  getErrnoMsg : IntegerType.int.Value → Option Bytes

/-- What `g_output`, `g_flush` and `abort` are called for. -/
inductive Effect
  | output (msg : Bytes)
  | flush
  | abort
  deriving DecidableEq

variable {Double : Type} (printDouble : Double → Bytes) (info : ThreadInfo)

/-- Operands that go into `stream()`. -/
def into (l : Logger) (ops : List (Operand Double)) : Option Logger :=
  (stream printDouble l.stream_ ops).map fun s => { l with stream_ := s }

/-- A string literal. -/
def literal (s : String) : Operand Double := .cString (some (ascii s))

/-- The first 19 characters of the time, up to the seconds. -/
def timeOperand : Operand Double :=
  .generalTemplate ⟨info.t_time.cells, ⟨19, by decide, by decide⟩, by
    rw [info.t_time.length_cells]
    decide⟩

def levelOperand (level : LogLevel) : Operand Double :=
  .generalTemplate ⟨getLevelName level, ⟨6, by decide, by decide⟩, by
    rw [length_getLevelName]
    rfl⟩

def formatTime (l : Logger) : Option Logger := into printDouble l [timeOperand info]

/-- The constructor of `Impl`; the array holds what was there before. -/
def impl (data : Block UInt8 kSmallBuffer) (level : LogLevel)
    (savedErrno : IntegerType.int.Value) (file : Bytes) (line : IntegerType.int.Value) :
    Option Logger :=
  (formatTime printDouble info ⟨Raw.new data, level, line, SourceFile.new file⟩).bind fun l =>
  (into printDouble l
    [literal " Thread:", .integer .int info.t_cachedTid, literal " "]).bind fun l =>
  (into printDouble l [levelOperand l.level_]).bind fun l =>
  if savedErrno.val ≠ 0 then
    into printDouble l [.cString (info.getErrnoMsg savedErrno), literal " (errno = ",
      .integer .int savedErrno, literal ") "]
  else some l

/-- The constructors. -/
inductive Args
  | default (file : Bytes) (line : IntegerType.int.Value)
  | level (file : Bytes) (line : IntegerType.int.Value) (level : LogLevel)
  | func (file : Bytes) (line : IntegerType.int.Value) (level : LogLevel) (func : Option Bytes)

namespace Args

def file : Args → Bytes
  | default file _ | level file _ _ | func file _ _ _ => file

def line : Args → IntegerType.int.Value
  | default _ line | level _ line _ | func _ line _ _ => line

end Args

def new (data : Block UInt8 kSmallBuffer) : Args → Option Logger
  | .default file line => impl printDouble info data .INFO ⟨0, by decide, by decide⟩ file line
  | .level file line level => impl printDouble info data level ⟨0, by decide, by decide⟩ file line
  | .func file line level func =>
    (impl printDouble info data level ⟨0, by decide, by decide⟩ file line).bind fun l =>
      into printDouble l [.cString func, .char 32]

/-- `finish`. -/
def finish (l : Logger) : Option Logger :=
  into printDouble l
    [literal " - ",
      .generalTemplate ⟨l.basename_.data_, l.basename_.size_, l.basename_.size_le⟩,
      literal ":", .integer .int l.line_, .char 10]

/-- The destructor. -/
def destroy (l : Logger) : Option (List Effect) :=
  (finish printDouble l).map fun l =>
    .output l.stream_.toString :: if l.level_ = .FATAL then [.flush, .abort] else []

/-! ### The buffer of a record -/

/-- The stream shows a buffer with a free byte. -/
structure Shows (l : Logger) (f : FixedBuffer kSmallBuffer) : Prop where
  stream : l.stream_.Shows f
  free : f.length < kSmallBuffer

theorem Shows.toString {l : Logger} {f : FixedBuffer kSmallBuffer} (h : l.Shows f) :
    l.stream_.toString = f.data :=
  h.stream.toString kSmallBuffer_lt

/-- `into` appends to the stream and changes nothing else. -/
theorem shows_into {l : Logger} {f : FixedBuffer kSmallBuffer} (h : l.Shows f)
    (hprint : ∀ v, (printDouble v).length < 48) (ops : List (Operand Double)) :
    ∃ s, into printDouble l ops = some { l with stream_ := s } ∧
      Shows { l with stream_ := s } (puts printDouble f ops) := by
  obtain ⟨s, hs, hshows⟩ := shows_stream printDouble h.stream hprint ops
  refine ⟨s, ?_, hshows, length_puts_lt printDouble h.free ops⟩
  rw [into, hs]
  rfl

/-- A record of the file and the line of `args` with the content of `f`. -/
structure Open (args : Args) (l : Logger) (f : FixedBuffer kSmallBuffer) : Prop where
  shows : l.Shows f
  line : l.line_ = args.line
  basename : l.basename_ = SourceFile.new args.file

theorem open_into {args : Args} {l : Logger} {f : FixedBuffer kSmallBuffer} (h : Open args l f)
    (hprint : ∀ v, (printDouble v).length < 48) (ops : List (Operand Double)) :
    ∃ l', into printDouble l ops = some l' ∧ l'.level_ = l.level_ ∧
      Open args l' (puts printDouble f ops) := by
  obtain ⟨s, hs, hshows⟩ := shows_into printDouble h.shows hprint ops
  exact ⟨_, hs, rfl, hshows, h.line, h.basename⟩

/-- The operands with which a constructor opens a record. -/
def opening (level : LogLevel) : List (Operand Double) :=
  [timeOperand info] ++ ([literal " Thread:", .integer .int info.t_cachedTid, literal " "] ++
    [levelOperand level])

theorem open_impl (args : Args) (hprint : ∀ v, (printDouble v).length < 48)
    (data : Block UInt8 kSmallBuffer) (level : LogLevel) :
    ∃ l, impl printDouble info data level ⟨0, by decide, by decide⟩ args.file args.line = some l ∧
      Open args l (puts printDouble FixedBuffer.new (opening info level)) := by
  have hstart : Open args ⟨Raw.new data, level, args.line, SourceFile.new args.file⟩
      FixedBuffer.new := ⟨⟨Raw.shows_new data, by decide⟩, rfl, rfl⟩
  obtain ⟨l₁, h₁, hlevel₁, hopen₁⟩ := open_into printDouble hstart hprint [timeOperand info]
  obtain ⟨l₂, h₂, hlevel₂, hopen₂⟩ := open_into printDouble hopen₁ hprint
    [literal " Thread:", .integer .int info.t_cachedTid, literal " "]
  obtain ⟨l₃, h₃, -, hopen₃⟩ := open_into printDouble hopen₂ hprint [levelOperand level]
  refine ⟨l₃, ?_, ?_⟩
  · unfold impl formatTime
    rw [h₁, Option.bind_some, h₂, Option.bind_some, hlevel₂, hlevel₁, h₃, Option.bind_some]
    rfl
  · rwa [← puts_append, ← puts_append] at hopen₃

/-- The operands that come before those of the user. -/
def openingOf : Args → List (Operand Double)
  | .default _ _ => opening info .INFO
  | .level _ _ level => opening info level
  | .func _ _ level func => opening info level ++ [.cString func, .char 32]

/-- Every constructor succeeds. -/
theorem open_new (args : Args) (hprint : ∀ v, (printDouble v).length < 48)
    (data : Block UInt8 kSmallBuffer) :
    ∃ l, new printDouble info data args = some l ∧
      Open args l (puts printDouble FixedBuffer.new (openingOf info args)) := by
  cases args with
  | default file line => exact open_impl printDouble info (.default file line) hprint data .INFO
  | level file line level =>
    exact open_impl printDouble info (.level file line level) hprint data level
  | func file line level func =>
    obtain ⟨l, hl, hopen⟩ :=
      open_impl printDouble info (.func file line level func) hprint data level
    obtain ⟨l', hl', -, hopen'⟩ := open_into printDouble hopen hprint [.cString func, .char 32]
    refine ⟨l', ?_, ?_⟩
    · rw [new, show impl printDouble info data level ⟨0, by decide, by decide⟩ file line = some l
        from hl]
      exact hl'
    · rwa [← puts_append] at hopen'

end Logger

end TinyNetwork
