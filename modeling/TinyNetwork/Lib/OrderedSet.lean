import Mathlib.Order.Lattice
import Mathlib.Data.List.Basic

/-!
# Finite sets kept in increasing order

A `std::set` as the increasing list of its elements: `insert`, the first element, and the split in
front of the first element that is not below a bound.
-/

universe u

/-- A finite set of elements in increasing order. -/
structure OrderedSet (α : Type u) [LinearOrder α] where
  toList : List α
  sorted : toList.Pairwise (· < ·)

namespace OrderedSet

variable {α : Type u} [LinearOrder α]

/-- Insert `a` into an increasing list. -/
def insertList (a : α) : List α → List α
  | [] => [a]
  | b :: l => if a < b then a :: b :: l else if b < a then b :: insertList a l else b :: l

theorem mem_insertList {a b : α} {l : List α} : b ∈ insertList a l ↔ b = a ∨ b ∈ l := by
  induction l with
  | nil => simp [insertList]
  | cons c l ih =>
    rw [insertList]
    split_ifs with hac hca
    · exact List.mem_cons
    · rw [List.mem_cons, ih, List.mem_cons]
      exact or_left_comm
    · have heq : a = c := le_antisymm (not_lt.1 hca) (not_lt.1 hac)
      simp [heq]

theorem sorted_insertList (a : α) {l : List α} (h : l.Pairwise (· < ·)) :
    (insertList a l).Pairwise (· < ·) := by
  induction l with
  | nil => exact List.pairwise_singleton _ _
  | cons c l ih =>
    obtain ⟨hc, hl⟩ := List.pairwise_cons.1 h
    rw [insertList]
    split_ifs with hac hca
    · refine List.pairwise_cons.2 ⟨fun x hx => ?_, h⟩
      rcases List.mem_cons.1 hx with rfl | hx
      · exact hac
      · exact lt_trans hac (hc x hx)
    · refine List.pairwise_cons.2 ⟨fun x hx => ?_, ih hl⟩
      rcases mem_insertList.1 hx with rfl | hx
      · exact hca
      · exact hc x hx
    · exact h

theorem insertList_perm {a : α} {l : List α} (h : a ∉ l) : (insertList a l).Perm (a :: l) := by
  induction l with
  | nil => exact List.Perm.refl _
  | cons c l ih =>
    rw [List.mem_cons, not_or] at h
    rw [insertList]
    split_ifs with hac hca
    · exact List.Perm.refl _
    · exact ((ih h.2).cons c).trans (List.Perm.swap a c l)
    · exact absurd (le_antisymm (not_lt.1 hca) (not_lt.1 hac)) h.1

def empty : OrderedSet α := ⟨[], List.Pairwise.nil⟩

def insert (s : OrderedSet α) (a : α) : OrderedSet α :=
  ⟨insertList a s.toList, sorted_insertList a s.sorted⟩

/-- `*begin()`. -/
def first? (s : OrderedSet α) : Option α := s.toList.head?

/-- The elements in front of `lower_bound(b)`. -/
def below (s : OrderedSet α) (b : α) : List α := s.toList.takeWhile (· < b)

/-- The elements from `lower_bound(b)` on. -/
def above (s : OrderedSet α) (b : α) : OrderedSet α :=
  ⟨s.toList.dropWhile (· < b), s.sorted.sublist (List.dropWhile_sublist _)⟩

@[simp] theorem toList_empty : (empty : OrderedSet α).toList = [] := rfl

theorem mem_insert {s : OrderedSet α} {a b : α} :
    b ∈ (s.insert a).toList ↔ b = a ∨ b ∈ s.toList :=
  mem_insertList

theorem insert_perm {s : OrderedSet α} {a : α} (h : a ∉ s.toList) :
    (s.insert a).toList.Perm (a :: s.toList) :=
  insertList_perm h

theorem below_append_above (s : OrderedSet α) (b : α) :
    s.below b ++ (s.above b).toList = s.toList :=
  List.takeWhile_append_dropWhile

/-- Increasing elements are below a bound up to the first one that is not. -/
theorem takeWhile_eq_filter {l : List α} (h : l.Pairwise (· < ·)) (b : α) :
    l.takeWhile (· < b) = l.filter (· < b) := by
  induction l with
  | nil => rfl
  | cons c l ih =>
    obtain ⟨hc, hl⟩ := List.pairwise_cons.1 h
    by_cases hcb : c < b
    · simp [hcb, ih hl]
    · have hnone : ∀ x ∈ l, ¬ x < b := fun x hx hxb => hcb ((hc x hx).trans hxb)
      simpa [hcb] using hnone

theorem dropWhile_eq_filter {l : List α} (h : l.Pairwise (· < ·)) (b : α) :
    l.dropWhile (· < b) = l.filter (b ≤ ·) := by
  induction l with
  | nil => rfl
  | cons c l ih =>
    obtain ⟨hc, hl⟩ := List.pairwise_cons.1 h
    by_cases hcb : c < b
    · simp [hcb, ih hl, not_le.2 hcb]
    · have hall : ∀ x ∈ l, b ≤ x := fun x hx => (not_lt.1 hcb).trans (hc x hx).le
      rw [List.dropWhile_cons_of_neg (by simpa using hcb)]
      exact (List.filter_eq_self.2 (by simpa using ⟨not_lt.1 hcb, hall⟩)).symm

theorem below_eq_filter (s : OrderedSet α) (b : α) : s.below b = s.toList.filter (· < b) :=
  takeWhile_eq_filter s.sorted b

theorem above_eq_filter (s : OrderedSet α) (b : α) :
    (s.above b).toList = s.toList.filter (b ≤ ·) :=
  dropWhile_eq_filter s.sorted b

theorem mem_of_first {s : OrderedSet α} {a : α} (h : s.first? = some a) : a ∈ s.toList :=
  List.mem_of_head? h

/-- The first element is the least one. -/
theorem first_le {s : OrderedSet α} {a b : α} (h : s.first? = some a) (hb : b ∈ s.toList) :
    a ≤ b := by
  obtain ⟨l, sorted⟩ := s
  cases l with
  | nil => cases hb
  | cons c l =>
    cases h
    rcases List.mem_cons.1 hb with rfl | hb
    · exact le_rfl
    · exact le_of_lt ((List.pairwise_cons.1 sorted).1 b hb)

theorem toList_eq_nil_of_first {s : OrderedSet α} (h : s.first? = none) : s.toList = [] :=
  List.head?_eq_none_iff.1 h

end OrderedSet
