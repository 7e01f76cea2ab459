import TinyNetwork.Lib.Bytes

/-!
# `class FixedBuffer` (src/base/FixedBuffer.h)

A character array of fixed size with a write position.  `data` is the part in front of the write
position; what lies behind it is never read.
-/

namespace TinyNetwork

def kLargeBuffer : ℕ := 4000 * 1000

structure FixedBuffer (SIZE : ℕ) where
  data : Bytes
  length_le : data.length ≤ SIZE
  deriving DecidableEq

namespace FixedBuffer

variable {SIZE : ℕ}

/-- The constructor. -/
def new : FixedBuffer SIZE := ⟨[], Nat.zero_le _⟩

def length (b : FixedBuffer SIZE) : ℕ := b.data.length

def avail (b : FixedBuffer SIZE) : ℕ := SIZE - b.length

/-- Nothing is appended unless there is room for one byte more. -/
def append (b : FixedBuffer SIZE) (buf : Bytes) : FixedBuffer SIZE :=
  if h : buf.length < b.avail then
    ⟨b.data ++ buf, by
      have hlen := b.length_le
      unfold avail length at h
      rw [List.length_append]
      omega⟩
  else b

def reset (_ : FixedBuffer SIZE) : FixedBuffer SIZE := new

@[simp] theorem data_new : (new : FixedBuffer SIZE).data = [] := rfl

@[simp] theorem data_reset (b : FixedBuffer SIZE) : b.reset.data = [] := rfl

theorem data_append {b : FixedBuffer SIZE} {buf : Bytes} (h : buf.length < b.avail) :
    (b.append buf).data = b.data ++ buf := by
  rw [append, dif_pos h]

theorem append_of_le {b : FixedBuffer SIZE} {buf : Bytes} (h : b.avail ≤ buf.length) :
    b.append buf = b := by
  rw [append, dif_neg (by omega)]

theorem avail_le (b : FixedBuffer SIZE) : b.avail ≤ SIZE := Nat.sub_le _ _

theorem avail_of_data_nil {b : FixedBuffer SIZE} (h : b.data = []) : b.avail = SIZE := by
  simp [avail, length, h]

end FixedBuffer

end TinyNetwork
