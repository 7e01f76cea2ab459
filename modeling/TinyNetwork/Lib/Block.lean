import Mathlib.Data.List.Basic

/-!
# Blocks of memory with checked writes

A block is an array of fixed size.  `store` writes a list from a position on and fails if one of the
cells lies outside of the block.  What a store that succeeds leaves behind is given by
`take_of_store` in front of its end, and by `getElem?_of_store` wherever it did not write.
-/

universe u

/-- An array of `n` cells. -/
structure Block (α : Type u) (n : ℕ) where
  cells : List α
  length_cells : cells.length = n

namespace Block

variable {α : Type u} {n : ℕ}

/-- `n` times the same cell. -/
def replicate (n : ℕ) (a : α) : Block α n := ⟨List.replicate n a, List.length_replicate⟩

/-- Write `xs` from cell `i` on. -/
def store (b : Block α n) (i : ℕ) (xs : List α) : Option (Block α n) :=
  if h : i + xs.length ≤ n then
    some ⟨b.cells.take i ++ xs ++ b.cells.drop (i + xs.length), by
      have hlen := b.length_cells
      simp only [List.length_append, List.length_take, List.length_drop]
      omega⟩
  else none

/-- The first `i` cells. -/
def front (b : Block α n) (i : ℕ) : List α := b.cells.take i

theorem length_front {b : Block α n} {i : ℕ} (h : i ≤ n) : (b.front i).length = i := by
  rw [front, List.length_take, b.length_cells]
  exact Nat.min_eq_left h

theorem exists_store {i : ℕ} {xs : List α} (b : Block α n) (h : i + xs.length ≤ n) :
    ∃ c, b.store i xs = some c :=
  ⟨_, dif_pos h⟩

theorem le_of_store {b c : Block α n} {i : ℕ} {xs : List α} (h : b.store i xs = some c) :
    i + xs.length ≤ n := by
  by_contra hlt
  rw [store, dif_neg hlt] at h
  cases h

theorem cells_of_store {b c : Block α n} {i : ℕ} {xs : List α} (h : b.store i xs = some c) :
    c.cells = b.cells.take i ++ xs ++ b.cells.drop (i + xs.length) := by
  rw [store, dif_pos (le_of_store h)] at h
  rw [← Option.some.inj h]

/-- In front of the end of a store lie the old cells and the new ones. -/
theorem front_of_store {b c : Block α n} {i k : ℕ} {xs : List α} (h : b.store i xs = some c)
    (hk : k ≤ xs.length) : c.front (i + k) = b.front i ++ xs.take k := by
  have hle := le_of_store h
  have hfront : (b.cells.take i).length = i := length_front (b := b) (by omega)
  rw [front, cells_of_store h, List.append_assoc, List.take_append, hfront, Nat.add_sub_cancel_left,
    List.take_append_of_le_length hk, List.take_of_length_le (by omega)]
  rfl

/-- A store leaves the other cells alone. -/
theorem getElem?_of_store {b c : Block α n} {i j : ℕ} {xs : List α} (h : b.store i xs = some c)
    (hj : j < i ∨ i + xs.length ≤ j) : c.cells[j]? = b.cells[j]? := by
  have hle := le_of_store h
  have hfront : (b.cells.take i).length = i := length_front (b := b) (by omega)
  rw [cells_of_store h]
  rcases hj with hj | hj
  · rw [List.append_assoc, List.getElem?_append_left (by omega), List.getElem?_take_of_lt hj]
  · rw [List.getElem?_append_right (by simp only [List.length_append, hfront]; omega),
      List.getElem?_drop]
    congr 1
    simp only [List.length_append, hfront]
    omega

end Block
