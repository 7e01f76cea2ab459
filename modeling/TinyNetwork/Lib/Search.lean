import Mathlib.Data.List.Infix

/-!
# First occurrence of a pattern in a list

`search pat xs` is the position of the first occurrence of `pat` in `xs`, as computed by
`std::search`.  An occurrence found in `xs` is still the first one when `xs` is extended on the
right (`search_append`); this is what makes a separator-driven reader insensitive to how its input
arrives.
-/

namespace Search

variable {α : Type*}

/-- A prefix that fits in `xs` is decided by `xs` alone. -/
theorem prefix_append_iff {pat xs : List α} (h : pat.length ≤ xs.length) (ys : List α) :
    pat <+: xs ++ ys ↔ pat <+: xs := by
  constructor
  · intro hp
    exact List.prefix_of_prefix_length_le hp (List.prefix_append xs ys) h
  · intro hp
    exact hp.trans (List.prefix_append xs ys)

variable [DecidableEq α]

/-- The position of the first occurrence of `pat` in the list. -/
def search (pat : List α) : List α → Option ℕ
  | [] => if pat = [] then some 0 else none
  | x :: xs => if pat <+: x :: xs then some 0 else (search pat xs).map (· + 1)

theorem search_nil (pat : List α) : search pat [] = if pat = [] then some 0 else none := rfl

theorem search_cons (pat : List α) (x : α) (xs : List α) :
    search pat (x :: xs) =
      if pat <+: x :: xs then some 0 else (search pat xs).map (· + 1) := rfl

theorem search_eq_zero {pat xs : List α} (h : pat <+: xs) : search pat xs = some 0 := by
  cases xs with
  | nil => simp [search_nil, List.prefix_nil.1 h]
  | cons x xs => rw [search_cons, if_pos h]

/-- At the position found, the list splits around the pattern. -/
theorem eq_of_search {pat xs : List α} {i : ℕ} (h : search pat xs = some i) :
    xs = xs.take i ++ pat ++ xs.drop (i + pat.length) := by
  induction xs generalizing i with
  | nil =>
    rw [search_nil] at h
    split_ifs at h with hp
    cases h
    simp [hp]
  | cons x xs ih =>
    rw [search_cons] at h
    split_ifs at h with hp
    · cases h
      obtain ⟨t, ht⟩ := hp
      simp [← ht]
    · obtain ⟨j, hj, rfl⟩ := Option.map_eq_some_iff.1 h
      rw [List.take_succ_cons, Nat.add_right_comm, List.drop_succ_cons, List.cons_append,
        List.cons_append, ← ih hj]

theorem search_add_length_le {pat xs : List α} {i : ℕ} (h : search pat xs = some i) :
    i + pat.length ≤ xs.length := by
  by_cases hi : i ≤ xs.length
  · have hlen := congrArg List.length (eq_of_search h)
    simp only [List.length_append, List.length_take, List.length_drop] at hlen
    omega
  · have heq := congrArg List.length (eq_of_search h)
    simp only [List.length_append, List.length_take, List.length_drop] at heq
    -- past the end the split leaves no room for the pattern, so the list would be its own prefix
    have hpat : pat = [] := List.length_eq_zero_iff.1 (by omega)
    subst hpat
    rw [search_eq_zero ⟨xs, List.nil_append xs⟩] at h
    cases h
    omega

/-- The first occurrence does not move when the list grows on the right. -/
theorem search_append {pat xs : List α} {i : ℕ} (h : search pat xs = some i) (ys : List α) :
    search pat (xs ++ ys) = some i := by
  induction xs generalizing i with
  | nil =>
    rw [search_nil] at h
    split_ifs at h with hp
    cases h
    exact search_eq_zero (by simp [hp])
  | cons x xs ih =>
    have hlen := search_add_length_le h
    rw [search_cons] at h
    split_ifs at h with hp
    · cases h
      exact search_eq_zero (hp.trans (List.prefix_append _ _))
    · obtain ⟨j, hj, rfl⟩ := Option.map_eq_some_iff.1 h
      have hnot : ¬ pat <+: x :: (xs ++ ys) := fun hq =>
        hp ((prefix_append_iff (by omega : pat.length ≤ (x :: xs).length) ys).1 hq)
      rw [List.cons_append, search_cons, if_neg hnot, ih hj]
      rfl

/-- A pattern is found at its place when none is completed in front of its last element. -/
theorem search_append_self {pat xs : List α} (h : ¬ pat <:+: xs ++ pat.dropLast) (ys : List α) :
    search pat (xs ++ (pat ++ ys)) = some xs.length := by
  induction xs with
  | nil => exact search_eq_zero (List.prefix_append pat ys)
  | cons x xs ih =>
    have hpat : ¬ pat <+: x :: xs ++ (pat ++ ys) := by
      intro hp
      refine h (List.IsPrefix.isInfix ?_)
      have hdrop : x :: xs ++ pat.dropLast <+: x :: xs ++ (pat ++ ys) :=
        (List.prefix_append_right_inj _).2 (pat.dropLast_prefix.trans (List.prefix_append pat ys))
      exact List.prefix_of_prefix_length_le hp hdrop (by simp; omega)
    have htail : ¬ pat <:+: xs ++ pat.dropLast := fun hi => h (hi.trans ⟨[x], [], by simp⟩)
    rw [List.cons_append] at hpat ⊢
    rw [search_cons, if_neg hpat, ih htail]
    rfl

theorem search_eq_none_iff {pat xs : List α} : search pat xs = none ↔ ¬ pat <:+: xs := by
  induction xs with
  | nil => simp [search_nil, List.infix_nil]
  | cons x xs ih =>
    rw [search_cons, List.infix_cons_iff]
    by_cases hp : pat <+: x :: xs <;> simp [hp, ih]

/-- In front of the first occurrence there is none. -/
theorem not_infix_take_of_search {pat xs : List α} {i : ℕ} (h : search pat xs = some i)
    (hpat : pat ≠ []) : ¬ pat <:+: xs.take i := by
  intro hin
  cases hs : search pat (xs.take i) with
  | none => exact search_eq_none_iff.1 hs hin
  | some j =>
    have hle := search_add_length_le hs
    have hall := search_append hs (xs.drop i)
    rw [List.take_append_drop, h, Option.some.injEq] at hall
    have hpos := List.length_pos_iff.2 hpat
    have htake := List.length_take_le i xs
    omega

end Search
