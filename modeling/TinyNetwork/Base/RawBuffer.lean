import TinyNetwork.Lib.Block
import TinyNetwork.Base.Integers
import TinyNetwork.Base.FixedBuffer

/-!
# `FixedBuffer` in memory (src/base/FixedBuffer.h)

`FixedBuffer.Raw` is the object as it lies in memory: the array and the write position, which `add`
moves without a test.  A member function that writes outside the array has no result.

`Raw.Shows` connects it with `FixedBuffer`, which holds the bytes in front of the write position and
the fact that there is room for them.
-/

namespace TinyNetwork

namespace FixedBuffer

structure Raw (SIZE : ℕ) where
  data_ : Block UInt8 SIZE
  cur_ : ℕ

namespace Raw

variable {SIZE : ℕ}

/-- The constructor; the array holds what was there before. -/
def new (data : Block UInt8 SIZE) : Raw SIZE := ⟨data, 0⟩

def length (b : Raw SIZE) : ℤ := toInt b.cur_

def avail (b : Raw SIZE) : ℤ := toInt (SIZE - b.cur_)

def add (b : Raw SIZE) (len : ℕ) : Raw SIZE := { b with cur_ := b.cur_ + len }

def reset (b : Raw SIZE) : Raw SIZE := { b with cur_ := 0 }

/-- Write bytes from the write position on. -/
def store (b : Raw SIZE) (bs : Bytes) : Option (Raw SIZE) :=
  (b.data_.store b.cur_ bs).map fun data => { b with data_ := data }

/-- `append(buf, len)`. -/
def append (b : Raw SIZE) (buf : Bytes) (len : ℕ) : Option (Raw SIZE) :=
  if len < toSizeT b.avail then (b.store (buf.take len)).map (·.add len) else some b

/-- `toString()`, and what `data()` and `length()` give to an output function. -/
def toString (b : Raw SIZE) : Bytes := b.data_.front b.length.toNat

/-- A write leaves the other bytes alone, and the write position. -/
theorem frame_store {b c : Raw SIZE} {bs : Bytes} (h : b.store bs = some c) :
    c.cur_ = b.cur_ ∧ ∀ j, j < b.cur_ ∨ b.cur_ + bs.length ≤ j →
      c.data_.cells[j]? = b.data_.cells[j]? := by
  obtain ⟨data, hdata, rfl⟩ := Option.map_eq_some_iff.1 h
  exact ⟨rfl, fun j hj => Block.getElem?_of_store hdata hj⟩

/-! ### The buffer that it shows -/

/-- The bytes in front of the write position are those of `f`. -/
structure Shows (b : Raw SIZE) (f : FixedBuffer SIZE) : Prop where
  cur : b.cur_ = f.length
  front : b.data_.front b.cur_ = f.data

theorem shows_new (data : Block UInt8 SIZE) : (new data).Shows FixedBuffer.new := ⟨rfl, rfl⟩

/-- A write position inside the array shows a buffer. -/
theorem exists_shows {b : Raw SIZE} (h : b.cur_ ≤ SIZE) : ∃ f, b.Shows f :=
  ⟨⟨b.data_.front b.cur_, (Block.length_front h).trans_le h⟩, (Block.length_front h).symm, rfl⟩

theorem Shows.cur_le {b : Raw SIZE} {f : FixedBuffer SIZE} (h : b.Shows f) : b.cur_ ≤ SIZE := by
  rw [h.cur]
  exact f.length_le

theorem Shows.length {b : Raw SIZE} {f : FixedBuffer SIZE} (h : b.Shows f) (hsize : SIZE < 2 ^ 31) :
    b.length = f.length := by
  have hle := h.cur_le
  rw [Raw.length, toInt_of_fits (by omega) (by omega), h.cur]

theorem Shows.avail {b : Raw SIZE} {f : FixedBuffer SIZE} (h : b.Shows f) (hsize : SIZE < 2 ^ 31) :
    b.avail = f.avail := by
  have hle := h.cur_le
  have hcur := h.cur
  rw [Raw.avail, toInt_of_fits (by omega) (by omega)]
  unfold FixedBuffer.avail
  omega

theorem Shows.toString {b : Raw SIZE} {f : FixedBuffer SIZE} (h : b.Shows f)
    (hsize : SIZE < 2 ^ 31) : b.toString = f.data := by
  rw [Raw.toString, h.length hsize, Int.toNat_natCast, ← h.cur]
  exact h.front

/-- Bytes that are written behind the others and counted are appended. -/
theorem Shows.store_add {b c : Raw SIZE} {f : FixedBuffer SIZE} (h : b.Shows f) {bs : Bytes}
    (rest : Bytes) (hstore : b.store (bs ++ rest) = some c) (hlt : bs.length < f.avail) :
    (c.add bs.length).Shows (f.append bs) := by
  obtain ⟨data, hdata, rfl⟩ := Option.map_eq_some_iff.1 hstore
  have hfront : data.front (b.cur_ + bs.length) = f.data ++ bs := by
    rw [Block.front_of_store hdata (by rw [List.length_append]; omega), h.front,
      List.take_left' rfl]
  constructor
  · show b.cur_ + bs.length = (f.append bs).data.length
    rw [data_append hlt, List.length_append, h.cur]
    rfl
  · rw [data_append hlt]
    exact hfront

/-- The bytes written fit. -/
theorem Shows.exists_store {b : Raw SIZE} {f : FixedBuffer SIZE} (h : b.Shows f) (bs : Bytes)
    (hle : bs.length ≤ f.avail) : ∃ c, b.store bs = some c := by
  have hcur := h.cur
  have hlen := f.length_le
  unfold FixedBuffer.avail FixedBuffer.length at hle
  unfold FixedBuffer.length at hcur
  obtain ⟨data, hdata⟩ := b.data_.exists_store (show b.cur_ + bs.length ≤ SIZE by omega)
  exact ⟨_, Option.map_eq_some_iff.2 ⟨data, hdata, rfl⟩⟩

/-- `append` does what `FixedBuffer.append` says, and writes nothing outside the array. -/
theorem Shows.append {b : Raw SIZE} {f : FixedBuffer SIZE} (h : b.Shows f) (hsize : SIZE < 2 ^ 31)
    {buf : Bytes} {len : ℕ} (hlen : len ≤ buf.length) :
    ∃ c, b.append buf len = some c ∧ c.Shows (f.append (buf.take len)) := by
  have hsizeT : toSizeT b.avail = f.avail := by
    have hle := f.avail_le
    rw [h.avail hsize, toSizeT_of_nonneg (by omega) (by omega), Int.toNat_natCast]
  have htake : (buf.take len).length = len := List.length_take_of_le hlen
  unfold Raw.append
  rw [hsizeT]
  split_ifs with hfits
  · obtain ⟨c, hc⟩ := h.exists_store (buf.take len) (by omega)
    refine ⟨c.add len, by rw [hc]; rfl, ?_⟩
    have hshows := h.store_add [] (by rw [List.append_nil]; exact hc) (by omega)
    rwa [htake] at hshows
  · exact ⟨b, rfl, by rwa [append_of_le (by omega)]⟩

end Raw

end FixedBuffer

end TinyNetwork
