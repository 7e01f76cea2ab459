import TinyNetwork.Lib.Fifo
import TinyNetwork.Net.Buffer

/-!
# `Buffer` refines a byte queue

The operations of `Buffer`, with their assertions: an operation whose assertion fails has no
result (`none`).  `perform_onFifo` is the simulation of one operation: what the queue allows, the
buffer does without failing an assertion, it returns the same string and keeps the same contents.
`performAll_refines` is the same for every sequence of operations on a new buffer.

`makeSpace_buffer_eq_copyWithin` justifies the model of the compacting branch of `makeSpace`: the
copy is made within the vector, front to back.
-/

namespace TinyNetwork

namespace Buffer

/-- `assert(p)`, and then `r`. -/
def assertThen {α : Type} (p : Prop) [Decidable p] (r : Option α) : Option α :=
  if p then r else none

theorem assertThen_of {α : Type} {p : Prop} [Decidable p] (h : p) (r : Option α) :
    assertThen p r = r :=
  if_pos h

/-! ### The operations with their assertions -/

/-- The constructor. -/
def construct (initialSize : ℕ) : Option Buffer :=
  let b := new initialSize
  assertThen (b.readableBytes = 0) <|
    assertThen (b.writableBytes = initialSize) <|
      assertThen (b.prependableBytes = kCheapPrepend) (some b)

def retrieveChecked (b : Buffer) (len : ℕ) : Option Buffer :=
  assertThen (len ≤ b.readableBytes) (some (b.retrieve len))

def retrieveAsStringChecked (b : Buffer) (len : ℕ) : Option (Buffer × Bytes) :=
  assertThen (len ≤ b.readableBytes) <|
    (b.retrieveChecked len).map fun c => (c, (b.retrieveAsString len).1)

def retrieveAllAsStringChecked (b : Buffer) : Option (Buffer × Bytes) :=
  b.retrieveAsStringChecked b.readableBytes

/-- `retrieveUntil(beginRead() + off)`: the end must not lie behind `beginWrite()`. -/
def retrieveUntilChecked (b : Buffer) (off : ℕ) : Option Buffer :=
  assertThen (b.readerIndex + off ≤ b.writerIndex) (b.retrieveChecked off)

def makeSpaceChecked (b : Buffer) (len : ℕ) : Option Buffer :=
  if b.writableBytes + b.prependableBytes < len + kCheapPrepend then some (b.makeSpace len)
  else
    assertThen (kCheapPrepend < b.readerIndex) <|
      assertThen (b.readableBytes = (b.makeSpace len).readableBytes) (some (b.makeSpace len))

def ensureWritableBytesChecked (b : Buffer) (len : ℕ) : Option Buffer :=
  (if b.writableBytes < len then b.makeSpaceChecked len else some b).bind fun c =>
    assertThen (len ≤ c.writableBytes) (some c)

def appendChecked (b : Buffer) (data : Bytes) : Option Buffer :=
  (b.ensureWritableBytesChecked data.length).map fun _ => b.append data

/-- The operations of the interface. -/
inductive Op
  | append (data : Bytes)
  | retrieve (len : ℕ)
  | retrieveAll
  | retrieveAsString (len : ℕ)
  | retrieveAllAsString
  | retrieveUntil (off : ℕ)
  | ensureWritableBytes (len : ℕ)
  deriving DecidableEq

/-- One operation: the buffer afterwards and the string returned, if it returns one. -/
def perform (b : Buffer) : Op → Option (Buffer × Option Bytes)
  | .append data => (b.appendChecked data).map fun c => (c, none)
  | .retrieve len => (b.retrieveChecked len).map fun c => (c, none)
  | .retrieveAll => some (b.retrieveAll, none)
  | .retrieveAsString len => (b.retrieveAsStringChecked len).map fun r => (r.1, some r.2)
  | .retrieveAllAsString => b.retrieveAllAsStringChecked.map fun r => (r.1, some r.2)
  | .retrieveUntil off => (b.retrieveUntilChecked off).map fun c => (c, none)
  | .ensureWritableBytes len => (b.ensureWritableBytesChecked len).map fun c => (c, none)

/-- A sequence of operations, with what each of them returned. -/
def performAll (b : Buffer) : List Op → Option (Buffer × List (Option Bytes))
  | [] => some (b, [])
  | op :: ops =>
    (b.perform op).bind fun r => (r.1.performAll ops).map fun q => (q.1, r.2 :: q.2)

namespace Op

/-- What an operation means for a queue; `none` if it retrieves more than there is. -/
def onFifo (f : Fifo UInt8) : Op → Option (Fifo UInt8 × Option Bytes)
  | .append data => some (f.push data, none)
  | .retrieve len | .retrieveUntil len =>
    if len ≤ f.contents.length then some ((f.pop len).2, none) else none
  | .retrieveAll => some ((f.pop f.contents.length).2, none)
  | .retrieveAsString len =>
    if len ≤ f.contents.length then some ((f.pop len).2, some (f.pop len).1) else none
  | .retrieveAllAsString =>
    some ((f.pop f.contents.length).2, some (f.pop f.contents.length).1)
  | .ensureWritableBytes _ => some (f, none)

def allOnFifo (f : Fifo UInt8) : List Op → Option (Fifo UInt8 × List (Option Bytes))
  | [] => some (f, [])
  | op :: ops =>
    (op.onFifo f).bind fun r => (allOnFifo r.1 ops).map fun q => (q.1, r.2 :: q.2)

/-- The bytes an operation appends. -/
def appended : Op → Bytes
  | .append data => data
  | _ => []

end Op

/-! ### The assertions -/

theorem construct_eq (n : ℕ) : construct n = some (new n) := by
  have hsize : (new n).writableBytes = n := by
    simp [new, writableBytes]
  have hempty : (new n).readableBytes = 0 := Nat.sub_self _
  have hprepend : (new n).prependableBytes = kCheapPrepend := rfl
  simp only [construct, assertThen_of, hsize, hempty, hprepend]

theorem readableBytes_makeSpace {b : Buffer} {len : ℕ} (h : b.writableBytes < len) :
    (b.makeSpace len).readableBytes = b.readableBytes := by
  rw [← length_readable, readable_makeSpace h, length_readable]

/-- `ensureWritableBytes` fails no assertion, in either branch of `makeSpace`. -/
theorem ensureWritableBytesChecked_eq (b : Buffer) (len : ℕ) :
    b.ensureWritableBytesChecked len = some (b.ensureWritableBytes len) := by
  have hroom := le_writableBytes_ensureWritableBytes b len
  unfold ensureWritableBytesChecked ensureWritableBytes at *
  split_ifs at hroom ⊢ with h
  · have hspace : b.makeSpaceChecked len = some (b.makeSpace len) := by
      unfold makeSpaceChecked
      split_ifs with hgrow
      · rfl
      · rw [assertThen_of (makeSpace_assert h hgrow),
          assertThen_of (readableBytes_makeSpace h).symm]
    rw [hspace, Option.bind_some, assertThen_of hroom]
  · rw [Option.bind_some, assertThen_of hroom]

theorem appendChecked_eq (b : Buffer) (data : Bytes) :
    b.appendChecked data = some (b.append data) := by
  rw [appendChecked, ensureWritableBytesChecked_eq]
  rfl

theorem retrieveChecked_eq {b : Buffer} {len : ℕ} (h : len ≤ b.readableBytes) :
    b.retrieveChecked len = some (b.retrieve len) :=
  assertThen_of h _

theorem retrieveAsStringChecked_eq {b : Buffer} {len : ℕ} (h : len ≤ b.readableBytes) :
    b.retrieveAsStringChecked len = some (b.retrieve len, b.readable.take len) := by
  rw [retrieveAsStringChecked, assertThen_of h, retrieveChecked_eq h, Option.map_some,
    retrieveAsString_fst h]

theorem retrieveUntilChecked_eq {b : Buffer} {off : ℕ} (h : off ≤ b.readableBytes) :
    b.retrieveUntilChecked off = some (b.retrieve off) := by
  have hindex := b.reader_le_writer
  rw [retrieveUntilChecked, assertThen_of, retrieveChecked_eq h]
  unfold readableBytes at h
  omega

/-- The compacting branch moves the readable bytes by a copy within the vector. -/
theorem makeSpace_buffer_eq_copyWithin {b : Buffer} {len : ℕ}
    (h : ¬ b.writableBytes + b.prependableBytes < len + kCheapPrepend) :
    (b.makeSpace len).buffer =
      b.buffer.copyWithin b.readerIndex kCheapPrepend b.readableBytes := by
  have h1 := b.cheapPrepend_le
  have h2 := b.reader_le_writer
  have h3 := b.writer_le_size
  have hlen := b.length_readable
  rw [List.copyWithin_eq h1 (by unfold readableBytes; omega), makeSpace, if_neg h]
  show overwrite b.buffer kCheapPrepend b.readable = _
  rw [overwrite, hlen, List.append_assoc]
  rfl

/-! ### The simulation -/

/-- **One operation.**  What the queue allows, the buffer does: no assertion fails, the same
string is returned, and buffer and queue agree again. -/
theorem perform_onFifo {b : Buffer} {f g : Fifo UInt8} {op : Op} {out : Option Bytes}
    (hb : b.readable = f.contents) (h : op.onFifo f = some (g, out)) :
    ∃ c, b.perform op = some (c, out) ∧ c.readable = g.contents ∧
      g.pushed = f.pushed ++ op.appended := by
  have hlen : f.contents.length = b.readableBytes := by rw [← hb, length_readable]
  have hall : (b.retrieve b.readableBytes).readable = [] := by
    rw [readable_retrieve le_rfl, ← length_readable, List.drop_length]
  cases op with
  | append data =>
    cases h
    refine ⟨b.append data, by simp only [perform, appendChecked_eq, Option.map_some], ?_, rfl⟩
    rw [readable_append, hb, Fifo.contents_push]
  | retrieve len =>
    rw [Op.onFifo, hlen] at h
    split_ifs at h with hle
    cases h
    refine ⟨b.retrieve len, by simp only [perform, retrieveChecked_eq hle, Option.map_some], ?_,
      (List.append_nil _).symm⟩
    rw [readable_retrieve hle, hb, Fifo.contents_pop]
  | retrieveAll =>
    cases h
    refine ⟨b.retrieveAll, rfl, ?_, (List.append_nil _).symm⟩
    rw [readable_retrieveAll, Fifo.contents_pop, List.drop_length]
  | retrieveAsString len =>
    rw [Op.onFifo, hlen] at h
    split_ifs at h with hle
    cases h
    refine ⟨b.retrieve len, ?_, ?_, (List.append_nil _).symm⟩
    · simp only [perform, retrieveAsStringChecked_eq hle, Option.map_some, hb, Fifo.pop_fst]
    · rw [readable_retrieve hle, hb, Fifo.contents_pop]
  | retrieveAllAsString =>
    cases h
    refine ⟨b.retrieve b.readableBytes, ?_, ?_, (List.append_nil _).symm⟩
    · simp only [perform, retrieveAllAsStringChecked, retrieveAsStringChecked_eq le_rfl,
        Option.map_some, hb, hlen, Fifo.pop_fst]
    · rw [hall, Fifo.contents_pop, List.drop_length]
  | retrieveUntil off =>
    rw [Op.onFifo, hlen] at h
    split_ifs at h with hle
    cases h
    refine ⟨b.retrieve off, by simp only [perform, retrieveUntilChecked_eq hle, Option.map_some],
      ?_, (List.append_nil _).symm⟩
    rw [readable_retrieve hle, hb, Fifo.contents_pop]
  | ensureWritableBytes len =>
    cases h
    refine ⟨b.ensureWritableBytes len,
      by simp only [perform, ensureWritableBytesChecked_eq, Option.map_some], ?_,
      (List.append_nil _).symm⟩
    rw [readable_ensureWritableBytes, hb]

theorem performAll_onFifo {b : Buffer} {f g : Fifo UInt8} {ops : List Op}
    {out : List (Option Bytes)} (hb : b.readable = f.contents)
    (h : Op.allOnFifo f ops = some (g, out)) :
    ∃ c, b.performAll ops = some (c, out) ∧ c.readable = g.contents ∧
      g.pushed = f.pushed ++ ops.flatMap Op.appended := by
  induction ops generalizing b f out with
  | nil =>
    cases h
    exact ⟨b, rfl, hb, by simp⟩
  | cons op ops ih =>
    rw [Op.allOnFifo, Option.bind_eq_some_iff] at h
    obtain ⟨⟨f', o⟩, hop, hrest⟩ := h
    obtain ⟨⟨g', os⟩, hops, heq⟩ := Option.map_eq_some_iff.1 hrest
    cases heq
    obtain ⟨c, hc, hread, hpushed⟩ := perform_onFifo hb hop
    obtain ⟨d, hd, hread', hpushed'⟩ := ih hread hops
    refine ⟨d, ?_, hread', ?_⟩
    · rw [performAll, hc, Option.bind_some, hd]
      rfl
    · rw [hpushed', hpushed, List.flatMap_cons, List.append_assoc]

/-- **`Buffer` refines a byte queue.**  On a new buffer of any size, every sequence of operations
that never retrieves more than there is runs without failing an assertion; the strings returned
are those of the queue, the readable bytes are the appended bytes without the prefix taken, and the
indexes are in order. -/
theorem performAll_refines (initialSize : ℕ) (ops : List Op) {f : Fifo UInt8}
    {out : List (Option Bytes)} (h : Op.allOnFifo Fifo.empty ops = some (f, out)) :
    ∃ b b', construct initialSize = some b ∧ b.performAll ops = some (b', out) ∧
      kCheapPrepend ≤ b'.readerIndex ∧ b'.readerIndex ≤ b'.writerIndex ∧
      b'.writerIndex ≤ b'.buffer.length ∧
      f.pushed = ops.flatMap Op.appended ∧ b'.readable = f.pushed.drop f.taken := by
  obtain ⟨b', hrun, hread, hpushed⟩ :=
    performAll_onFifo (b := new initialSize) (f := Fifo.empty) (readable_new _) h
  exact ⟨new initialSize, b', construct_eq _, hrun, b'.cheapPrepend_le, b'.reader_le_writer,
    b'.writer_le_size, hpushed, hread⟩

/-- A buffer without initial space: it grows, compacts and starts again from the front. -/
theorem performAll_refines_abcdef :
    ∃ b b', construct 0 = some b ∧
      b.performAll [.append [97, 98, 99], .retrieveAsString 2, .append [100, 101],
        .retrieveAllAsString, .append [102]] =
          some (b', [none, some [97, 98], none, some [99, 100, 101], none]) ∧
      b'.readable = [102] := by
  have hfifo : Op.allOnFifo Fifo.empty [.append [97, 98, 99], .retrieveAsString 2,
      .append [100, 101], .retrieveAllAsString, .append [102]] =
      some (⟨[97, 98, 99, 100, 101, 102], 5, by decide⟩,
        [none, some [97, 98], none, some [99, 100, 101], none]) := by decide
  obtain ⟨b, b', hb, hrun, -, -, -, -, hread⟩ := performAll_refines 0 _ hfifo
  exact ⟨b, b', hb, hrun, hread⟩

end Buffer

end TinyNetwork
