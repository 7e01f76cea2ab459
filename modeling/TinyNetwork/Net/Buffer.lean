import TinyNetwork.Lib.Bytes
import TinyNetwork.Lib.Search

/-!
# `class Buffer` (src/net/Buffer.h, src/net/Buffer.cpp)

The I/O buffer: a `std::vector<char>` with a reader and a writer index.  The readable bytes lie
between the two indexes, the writable space behind the writer index, and the `kCheapPrepend` bytes
in front of the readable bytes are never given up.  The class invariant is part of the type, so
every operation below carries the proof that it keeps it.

`readable` is the abstract content.  Each operation has one lemma that says what it does to
`readable`; the code that uses buffers is reasoned about through these lemmas only.

A pointer into the vector is an index.  Some callers hand out `beginWrite()` together with a
length that may reach behind the end of the vector; `bytesAt` says what is read there, given the
contents `heap` of the memory behind the vector, about which nothing is assumed.
-/

namespace TinyNetwork

open Search

/-- The memory behind the end of a vector. -/
abbrev Heap := ℕ → UInt8

/-- Replace the bytes from `pos` on by `data`, as `std::copy(data, data + len, begin() + pos)`. -/
def overwrite (v : Bytes) (pos : ℕ) (data : Bytes) : Bytes :=
  v.take pos ++ data ++ v.drop (pos + data.length)

theorem length_overwrite {v data : Bytes} {pos : ℕ} (h : pos + data.length ≤ v.length) :
    (overwrite v pos data).length = v.length := by
  simp only [overwrite, List.length_append, List.length_take, List.length_drop]
  omega

/-- `std::vector<char>::resize`: new bytes are zero. -/
def resize (v : Bytes) (n : ℕ) : Bytes := v.take n ++ List.replicate (n - v.length) 0

theorem length_resize (v : Bytes) (n : ℕ) : (resize v n).length = n := by
  simp only [resize, List.length_append, List.length_take, List.length_replicate]
  omega

/-- The bytes kept free in front of the readable bytes. -/
def kCheapPrepend : ℕ := 8

/-- The default size of a fresh buffer. -/
def kInitialSize : ℕ := 1024

/-- The line separator, `Buffer::kCRLF`. -/
def kCRLF : Bytes := Bytes.ascii "\r\n"

@[ext] structure Buffer where
  buffer : Bytes
  readerIndex : ℕ
  writerIndex : ℕ
  cheapPrepend_le : kCheapPrepend ≤ readerIndex
  reader_le_writer : readerIndex ≤ writerIndex
  writer_le_size : writerIndex ≤ buffer.length
  deriving DecidableEq

namespace Buffer

/-- `Buffer(size_t initialSize)`. -/
def new (initialSize : ℕ) : Buffer where
  buffer := List.replicate (kCheapPrepend + initialSize) 0
  readerIndex := kCheapPrepend
  writerIndex := kCheapPrepend
  cheapPrepend_le := le_rfl
  reader_le_writer := le_rfl
  writer_le_size := by rw [List.length_replicate]; omega

def readableBytes (b : Buffer) : ℕ := b.writerIndex - b.readerIndex

def writableBytes (b : Buffer) : ℕ := b.buffer.length - b.writerIndex

def prependableBytes (b : Buffer) : ℕ := b.readerIndex

/-- The byte at an index, which may lie behind the end of the vector. -/
def byteAt (b : Buffer) (heap : Heap) (i : ℕ) : UInt8 :=
  b.buffer.getD i (heap (i - b.buffer.length))

/-- The `len` bytes from the index `pos` on. -/
def bytesAt (b : Buffer) (heap : Heap) (pos len : ℕ) : Bytes :=
  (List.range' pos len).map (b.byteAt heap)

/-- The readable bytes, `std::string(beginRead(), readableBytes())`. -/
def readable (b : Buffer) : Bytes := (b.buffer.drop b.readerIndex).take b.readableBytes

def retrieveAll (b : Buffer) : Buffer where
  buffer := b.buffer
  readerIndex := kCheapPrepend
  writerIndex := kCheapPrepend
  cheapPrepend_le := le_rfl
  reader_le_writer := le_rfl
  writer_le_size := b.cheapPrepend_le.trans (b.reader_le_writer.trans b.writer_le_size)

/-- Callers must pass `len ≤ readableBytes()`, as the code asserts. -/
def retrieve (b : Buffer) (len : ℕ) : Buffer :=
  if h : len < b.readableBytes then
    { b with
      readerIndex := b.readerIndex + len
      cheapPrepend_le := b.cheapPrepend_le.trans (Nat.le_add_right _ _)
      reader_le_writer := by unfold readableBytes at h; omega }
  else b.retrieveAll

def retrieveAsString (b : Buffer) (len : ℕ) : Bytes × Buffer :=
  ((b.buffer.drop b.readerIndex).take len, b.retrieve len)

def retrieveAllAsString (b : Buffer) : Bytes × Buffer := b.retrieveAsString b.readableBytes

/-- `retrieveUntil(beginRead() + off)`. -/
def retrieveUntil (b : Buffer) (off : ℕ) : Buffer := b.retrieve off

/-- Grow the vector, or move the readable bytes to the front when that frees enough space. -/
def makeSpace (b : Buffer) (len : ℕ) : Buffer :=
  if b.writableBytes + b.prependableBytes < len + kCheapPrepend then
    { b with
      buffer := resize b.buffer (b.writerIndex + len)
      writer_le_size := by rw [length_resize]; omega }
  else
    { buffer := overwrite b.buffer kCheapPrepend b.readable
      readerIndex := kCheapPrepend
      writerIndex := kCheapPrepend + b.readableBytes
      cheapPrepend_le := le_rfl
      reader_le_writer := Nat.le_add_right _ _
      writer_le_size := by
        have h1 := b.cheapPrepend_le
        have h2 := b.reader_le_writer
        have h3 := b.writer_le_size
        have hlen : b.readable.length ≤ b.readableBytes := List.length_take_le _ _
        unfold readableBytes at *
        rw [length_overwrite (by omega)]
        omega }

def ensureWritableBytes (b : Buffer) (len : ℕ) : Buffer :=
  if b.writableBytes < len then b.makeSpace len else b

@[simp] theorem length_readable (b : Buffer) : b.readable.length = b.readableBytes := by
  have h2 := b.reader_le_writer
  have h3 := b.writer_le_size
  simp only [readable, readableBytes, List.length_take, List.length_drop]
  omega

theorem readable_eq_nil_iff (b : Buffer) : b.readable = [] ↔ b.readableBytes = 0 := by
  rw [← List.length_eq_zero_iff, length_readable]

/-- The assertion of `makeSpace` before it moves data: there is room in front to move into. -/
theorem makeSpace_assert {b : Buffer} {len : ℕ} (h : b.writableBytes < len)
    (hmove : ¬ b.writableBytes + b.prependableBytes < len + kCheapPrepend) :
    kCheapPrepend < b.readerIndex := by
  unfold prependableBytes at hmove
  omega

theorem le_writableBytes_makeSpace {b : Buffer} {len : ℕ} :
    len ≤ (b.makeSpace len).writableBytes := by
  unfold makeSpace
  split_ifs with h
  · simp only [writableBytes, length_resize]
    omega
  · have h1 := b.cheapPrepend_le
    have h2 := b.reader_le_writer
    have h3 := b.writer_le_size
    have hlen := b.length_readable
    simp only [writableBytes, prependableBytes, readableBytes] at *
    rw [length_overwrite (by omega)]
    omega

/-- The assertion at the end of `ensureWritableBytes`. -/
theorem le_writableBytes_ensureWritableBytes (b : Buffer) (len : ℕ) :
    len ≤ (b.ensureWritableBytes len).writableBytes := by
  unfold ensureWritableBytes
  split_ifs with h
  · exact le_writableBytes_makeSpace
  · omega

/-- `append(const char *data, size_t len)`. -/
def append (b : Buffer) (data : Bytes) : Buffer :=
  let c := b.ensureWritableBytes data.length
  { c with
    buffer := overwrite c.buffer c.writerIndex data
    writerIndex := c.writerIndex + data.length
    reader_le_writer := c.reader_le_writer.trans (Nat.le_add_right _ _)
    writer_le_size := by
      have h1 := le_writableBytes_ensureWritableBytes b data.length
      have h2 := c.writer_le_size
      have h3 : data.length ≤ c.buffer.length - c.writerIndex := h1
      rw [length_overwrite (by omega)]
      omega }

/-- The position of the first CRLF among the readable bytes, counted from `beginRead()`. -/
def findCRLF (b : Buffer) : Option ℕ := search kCRLF b.readable

/-! ### What the operations do to the readable bytes -/

theorem readable_new (n : ℕ) : (new n).readable = [] := by
  simp [readable, new, readableBytes]

@[simp] theorem readable_retrieveAll (b : Buffer) : b.retrieveAll.readable = [] := by
  simp [readable, retrieveAll, readableBytes]

theorem readable_retrieve {b : Buffer} {len : ℕ} (h : len ≤ b.readableBytes) :
    (b.retrieve len).readable = b.readable.drop len := by
  unfold retrieve
  split_ifs with hlt
  · simp only [readable, readableBytes, List.drop_take, List.drop_drop]
    rw [Nat.sub_add_eq]
  · rw [readable_retrieveAll, List.drop_eq_nil_of_le (by rw [length_readable]; omega)]

theorem readableBytes_retrieve {b : Buffer} {len : ℕ} (h : len ≤ b.readableBytes) :
    (b.retrieve len).readableBytes = b.readableBytes - len := by
  rw [← length_readable, readable_retrieve h, List.length_drop, length_readable]

theorem readable_retrieveUntil {b : Buffer} {off : ℕ} (h : off ≤ b.readableBytes) :
    (b.retrieveUntil off).readable = b.readable.drop off :=
  readable_retrieve h

theorem retrieveAsString_fst {b : Buffer} {len : ℕ} (h : len ≤ b.readableBytes) :
    (b.retrieveAsString len).1 = b.readable.take len := by
  simp only [retrieveAsString, readable, List.take_take, Nat.min_eq_left h]

@[simp] theorem retrieveAllAsString_fst (b : Buffer) : b.retrieveAllAsString.1 = b.readable := rfl

@[simp] theorem retrieveAllAsString_snd (b : Buffer) : b.retrieveAllAsString.2 = b.retrieveAll := by
  simp [retrieveAllAsString, retrieveAsString, retrieve]

theorem readable_makeSpace {b : Buffer} {len : ℕ} (h : b.writableBytes < len) :
    (b.makeSpace len).readable = b.readable := by
  have h1 := b.cheapPrepend_le
  have h2 := b.reader_le_writer
  have h3 := b.writer_le_size
  have hlen := b.length_readable
  unfold makeSpace
  split_ifs with hgrow
  · -- growing: the old bytes are a prefix of the new vector
    have htake : b.buffer.take (b.writerIndex + len) = b.buffer :=
      List.take_of_length_le (by unfold writableBytes at h; omega)
    simp only [readable, readableBytes, resize, htake]
    rw [List.drop_append_of_le_length (by omega), List.take_append_of_le_length]
    rw [List.length_drop]
    omega
  · -- moving: the readable bytes were copied to `kCheapPrepend`
    have hpre : (b.buffer.take kCheapPrepend).length = kCheapPrepend := by
      rw [List.length_take]
      omega
    conv_lhs => rw [readable]
    simp only [readableBytes, overwrite, List.append_assoc, Nat.add_sub_cancel_left]
    rw [List.drop_append, hpre, Nat.sub_self, List.drop_zero,
      List.drop_eq_nil_of_le (by rw [hpre]), List.nil_append,
      List.take_append_of_le_length (by rw [hlen, readableBytes]),
      List.take_of_length_le (by rw [hlen, readableBytes])]

theorem readable_ensureWritableBytes (b : Buffer) (len : ℕ) :
    (b.ensureWritableBytes len).readable = b.readable := by
  unfold ensureWritableBytes
  split_ifs with h
  · exact readable_makeSpace h
  · rfl

theorem readable_append (b : Buffer) (data : Bytes) :
    (b.append data).readable = b.readable ++ data := by
  have hens := readable_ensureWritableBytes b data.length
  have hroom := le_writableBytes_ensureWritableBytes b data.length
  set c := b.ensureWritableBytes data.length with hc
  have h2 := c.reader_le_writer
  have h3 := c.writer_le_size
  have hw : (c.buffer.take c.writerIndex).length = c.writerIndex := by
    rw [List.length_take]
    omega
  rw [← hens]
  show ((overwrite c.buffer c.writerIndex data).drop c.readerIndex).take
      (c.writerIndex + data.length - c.readerIndex) = c.readable ++ data
  rw [overwrite, List.append_assoc, List.drop_append_of_le_length (by omega), ← List.append_assoc,
    List.take_append_of_le_length, List.take_of_length_le, readable, readableBytes, List.drop_take]
  · simp only [List.length_append, List.length_drop, hw]
    omega
  · simp only [List.length_append, List.length_drop, hw]
    omega

theorem readableBytes_append (b : Buffer) (data : Bytes) :
    (b.append data).readableBytes = b.readableBytes + data.length := by
  rw [← length_readable, readable_append, List.length_append, length_readable]

@[simp] theorem length_bytesAt (b : Buffer) (heap : Heap) (pos len : ℕ) :
    (b.bytesAt heap pos len).length = len := by
  simp [bytesAt]

/-- Taking fewer bytes at a place is asking for fewer bytes there. -/
theorem take_bytesAt (b : Buffer) (heap : Heap) (pos : ℕ) {n len : ℕ} (h : n ≤ len) :
    (b.bytesAt heap pos len).take n = b.bytesAt heap pos n := by
  obtain ⟨d, rfl⟩ := Nat.exists_eq_add_of_le h
  rw [bytesAt, ← List.range'_append_1, List.map_append, List.take_left' (by simp)]
  rfl

end Buffer

end TinyNetwork
