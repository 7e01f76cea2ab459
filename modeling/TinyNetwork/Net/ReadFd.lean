import TinyNetwork.Net.BufferFifo

/-!
# `Buffer::readFd` (src/net/Buffer.cpp)

`readFd` offers `::readv` the writable bytes and, unless they are 64 KiB already, a block on the
stack behind them.  What lands in that block is appended afterwards, to a buffer that is full then.

`readFd_append`: wherever the bytes land, they end up behind the readable ones.
-/

namespace TinyNetwork

/-- The size of `extrabuf`. -/
def kExtrabuf : ℕ := 65536

/-- The answer of `::readv`: the bytes it has put into the blocks offered, in order, or `errno`. -/
inductive ReadvResult
  | data (bytes : Bytes)
  | error (errno : ℕ)
  deriving DecidableEq

namespace Buffer

/-- The lengths of the blocks offered. -/
def iovecs (b : Buffer) : List ℕ :=
  if b.writableBytes < kExtrabuf then [b.writableBytes, kExtrabuf] else [b.writableBytes]

/-- `::readv` puts the first bytes behind the writer index. -/
def fill (b : Buffer) (d : Bytes) : Buffer :=
  { b with
    buffer := overwrite b.buffer b.writerIndex (d.take b.writableBytes)
    writer_le_size := by
      have h := b.writer_le_size
      have hlen : (d.take b.writableBytes).length ≤ b.writableBytes := List.length_take_le _ _
      unfold writableBytes at *
      rw [length_overwrite (by omega)]
      exact h }

/-- What is in `extrabuf` then. -/
def extrabuf (b : Buffer) (d : Bytes) : Bytes :=
  overwrite (List.replicate kExtrabuf 0) 0 ((d.drop b.writableBytes).take kExtrabuf)

/-- `writerIndex_ += n`. -/
def advance (b : Buffer) (n : ℕ) (h : n ≤ b.writableBytes) : Buffer :=
  { b with
    writerIndex := b.writerIndex + n
    reader_le_writer := b.reader_le_writer.trans (Nat.le_add_right _ _)
    writer_le_size := by
      have hsize := b.writer_le_size
      unfold writableBytes at h
      omega }

/-- `readFd(fd, savedErrno)`: the buffer, `*savedErrno`, and the number returned; `none` when an
assertion fails. -/
def readFd (b : Buffer) (savedErrno : ℕ) : ReadvResult → Option (Buffer × ℕ × ℤ)
  | .error errno => some (b, errno, -1)
  | .data d =>
    let c := b.fill d
    if h : d.length ≤ c.writableBytes then some (c.advance d.length h, savedErrno, d.length)
    else
      -- `writerIndex_ = buffer_.size()`, and the rest comes from the stack
      ((c.advance c.writableBytes le_rfl).appendChecked
        ((b.extrabuf d).take (d.length - b.writableBytes))).map fun c => (c, savedErrno, d.length)

theorem length_fill (b : Buffer) (d : Bytes) : (b.fill d).buffer.length = b.buffer.length := by
  have h := b.writer_le_size
  have hlen : (d.take b.writableBytes).length ≤ b.writableBytes := List.length_take_le _ _
  unfold writableBytes at hlen
  exact length_overwrite (by unfold writableBytes; omega)

@[simp] theorem writableBytes_fill (b : Buffer) (d : Bytes) :
    (b.fill d).writableBytes = b.writableBytes := by
  rw [writableBytes, length_fill]
  rfl

/-- The bytes that were put behind the writer index become readable. -/
theorem readable_advance_fill (b : Buffer) (d : Bytes) {n : ℕ} (hn : n ≤ d.length)
    (h : n ≤ (b.fill d).writableBytes) :
    ((b.fill d).advance n h).readable = b.readable ++ d.take n := by
  have h2 := b.reader_le_writer
  have h3 := b.writer_le_size
  rw [writableBytes_fill] at h
  have hpre : (b.buffer.take b.writerIndex).length = b.writerIndex := by
    rw [List.length_take]
    omega
  have hold : (b.buffer.take b.writerIndex).drop b.readerIndex = b.readable := by
    rw [List.drop_take]
    rfl
  have hnew : (d.take b.writableBytes).take n = d.take n := by
    rw [List.take_take, Nat.min_eq_left h]
  have hrest : b.writerIndex + n - b.readerIndex - b.readableBytes = n := by
    unfold readableBytes
    omega
  show ((overwrite b.buffer b.writerIndex (d.take b.writableBytes)).drop b.readerIndex).take
      (b.writerIndex + n - b.readerIndex) = b.readable ++ d.take n
  rw [overwrite, List.append_assoc, List.drop_append_of_le_length (by omega), hold,
    List.take_append, length_readable, hrest, List.take_append_of_le_length, hnew,
    List.take_of_length_le]
  · rw [length_readable, readableBytes]
    omega
  · rw [List.length_take]
    omega

/-- What did not fit behind the writer index is at the front of the block on the stack. -/
theorem take_extrabuf {b : Buffer} {d : Bytes} (h : d.length ≤ b.writableBytes + kExtrabuf) :
    (b.extrabuf d).take (d.length - b.writableBytes) = d.drop b.writableBytes := by
  have hall : (d.drop b.writableBytes).take kExtrabuf = d.drop b.writableBytes :=
    List.take_of_length_le (by rw [List.length_drop]; omega)
  rw [extrabuf, hall, overwrite, List.take_zero, List.nil_append, List.take_append_of_le_length,
    List.take_of_length_le]
  all_goals
    rw [List.length_drop]

/-- **`readFd` is an append.**  Whatever bytes `::readv` delivers into the blocks offered, they are
appended to the readable ones, no assertion fails and their number is returned.  When `::readv`
fails the buffer is unchanged and `*savedErrno` is `errno`. -/
theorem readFd_append (b : Buffer) (savedErrno : ℕ) :
    (∀ d, d.length ≤ b.iovecs.sum →
      ∃ c, b.readFd savedErrno (.data d) = some (c, savedErrno, (d.length : ℤ)) ∧
        c.readable = b.readable ++ d ∧ kCheapPrepend ≤ c.readerIndex ∧
        c.readerIndex ≤ c.writerIndex ∧ c.writerIndex ≤ c.buffer.length) ∧
    ∀ errno, b.readFd savedErrno (.error errno) = some (b, errno, -1) := by
  refine ⟨fun d hd => ?_, fun _ => rfl⟩
  suffices h : ∃ c, b.readFd savedErrno (.data d) = some (c, savedErrno, (d.length : ℤ)) ∧
      c.readable = b.readable ++ d by
    obtain ⟨c, hc, hread⟩ := h
    exact ⟨c, hc, hread, c.cheapPrepend_le, c.reader_le_writer, c.writer_le_size⟩
  unfold readFd
  by_cases hfits : d.length ≤ (b.fill d).writableBytes
  · refine ⟨(b.fill d).advance d.length hfits, dif_pos hfits, ?_⟩
    rw [readable_advance_fill b d le_rfl hfits, List.take_length]
  · -- the vector is full, and the block on the stack was offered
    have hfull := hfits
    rw [writableBytes_fill] at hfull
    have hblock : d.length ≤ b.writableBytes + kExtrabuf := by
      unfold iovecs at hd
      split_ifs at hd
      · simpa using hd
      · simp only [List.sum_cons, List.sum_nil] at hd
        omega
    have htail : b.writableBytes ≤ d.length := Nat.le_of_not_le hfull
    have hread := readable_advance_fill b d (n := (b.fill d).writableBytes)
      (by rwa [writableBytes_fill]) le_rfl
    refine ⟨_, (dif_neg hfits).trans (by rw [appendChecked_eq]; rfl), ?_⟩
    rw [readable_append, hread, take_extrabuf hblock, writableBytes_fill, List.append_assoc,
      List.take_append_drop]

/-- A buffer with two writable bytes is given three: one goes by way of the stack. -/
theorem readFd_append_across :
    ∃ c, (new 2).readFd 0 (.data (Bytes.ascii "abc")) = some (c, 0, 3) ∧
      c.readable = Bytes.ascii "abc" := by
  obtain ⟨c, hc, hread, -⟩ := (readFd_append (new 2) 0).1 (Bytes.ascii "abc") (by decide)
  exact ⟨c, hc, hread⟩

end Buffer

end TinyNetwork
