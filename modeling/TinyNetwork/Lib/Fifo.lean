import Mathlib.Data.List.Basic
import Mathlib.Order.MinMax

/-!
# A queue with its history

A `Fifo` remembers everything that was ever pushed; what has been taken is always a prefix of it,
and the contents are the rest.  An implementation that returns what `pop` returns therefore neither
loses, duplicates nor reorders anything.

`copyWithin` is the element-wise copy inside one array that an implementation uses to move its
contents to the front, and `copyWithin_eq` says that moving towards the front is safe although the
ranges overlap.
-/

variable {α : Type*}

structure Fifo (α : Type*) where
  pushed : List α
  taken : ℕ
  taken_le : taken ≤ pushed.length
  deriving DecidableEq

namespace Fifo

def empty : Fifo α := ⟨[], 0, le_rfl⟩

def contents (f : Fifo α) : List α := f.pushed.drop f.taken

def push (f : Fifo α) (xs : List α) : Fifo α where
  pushed := f.pushed ++ xs
  taken := f.taken
  taken_le := f.taken_le.trans (by simp)

/-- The first `n` elements, or all if there are fewer, are taken. -/
def pop (f : Fifo α) (n : ℕ) : List α × Fifo α where
  fst := f.contents.take n
  snd :=
    { pushed := f.pushed
      taken := min (f.taken + n) f.pushed.length
      taken_le := min_le_right _ _ }

@[simp] theorem contents_empty : (empty : Fifo α).contents = [] := rfl

@[simp] theorem contents_push (f : Fifo α) (xs : List α) :
    (f.push xs).contents = f.contents ++ xs :=
  List.drop_append_of_le_length f.taken_le

@[simp] theorem pop_fst (f : Fifo α) (n : ℕ) : (f.pop n).1 = f.contents.take n := rfl

@[simp] theorem contents_pop (f : Fifo α) (n : ℕ) :
    (f.pop n).2.contents = f.contents.drop n := by
  show f.pushed.drop (min (f.taken + n) f.pushed.length) = (f.pushed.drop f.taken).drop n
  rw [List.drop_drop]
  rcases Nat.le_total (f.taken + n) f.pushed.length with h | h
  · rw [min_eq_left h]
  · rw [min_eq_right h, List.drop_length, List.drop_eq_nil_of_le h]

@[simp] theorem pushed_push (f : Fifo α) (xs : List α) : (f.push xs).pushed = f.pushed ++ xs := rfl

@[simp] theorem pushed_pop (f : Fifo α) (n : ℕ) : (f.pop n).2.pushed = f.pushed := rfl

end Fifo

namespace List

/-- Copy the `n` elements from `src` on to `dst`, one at a time and from the front. -/
def copyWithin (v : List α) (src dst : ℕ) : ℕ → List α
  | 0 => v
  | n + 1 =>
    match v[src]? with
    | some x => copyWithin (v.set dst x) (src + 1) (dst + 1) n
    | none => v

theorem take_set_append {v : List α} {dst : ℕ} (x : α) (h : dst < v.length) :
    (v.set dst x).take (dst + 1) = v.take dst ++ [x] := by
  rw [List.take_add_one, List.take_set_of_le (le_refl dst), List.getElem?_set_self h]
  rfl

/-- **A copy towards the front** copies what stood there before, although it may overwrite part of
it on the way. -/
theorem copyWithin_eq {v : List α} {src dst n : ℕ} (hdst : dst ≤ src)
    (hsrc : src + n ≤ v.length) :
    v.copyWithin src dst n = v.take dst ++ ((v.drop src).take n ++ v.drop (dst + n)) := by
  induction n generalizing v src dst with
  | zero => simp [copyWithin]
  | succ n ih =>
    have hlt : src < v.length := by omega
    rw [copyWithin, List.getElem?_eq_getElem hlt]
    simp only
    -- what is still to be copied lies behind `dst`
    rw [ih (by omega) (by rw [List.length_set]; omega), take_set_append _ (by omega),
      List.drop_set_of_lt (by omega), List.drop_set_of_lt (by omega),
      List.drop_eq_getElem_cons hlt, List.take_succ_cons]
    simp [Nat.add_assoc, Nat.add_comm 1 n]

end List
