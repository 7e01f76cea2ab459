import Mathlib.Data.List.Basic

/-!
# Readers that do not care how their input is cut

A reader looks at its state and at the input it has not read yet.  It waits for more input, reads
a prefix and goes on in a new state, or stops with a verdict.  The fields of `Reader` say that a
decision once taken is not changed by input that arrives later and that going on reads something.
`read` runs a reader until it waits or stops, `feed` hands it the input chunk by chunk.
`feed_eq_read` is the point of the file: feeding chunks gives the verdict, the state and the
unread input of one `read` of all of them.
-/

namespace Incremental

variable {σ α ρ : Type*}

/-- What a reader does with the input it has not read yet. -/
inductive Move (σ α ρ : Type*)
  | wait
  | more (s : σ) (rest : List α)
  | stop (r : ρ) (s : σ) (rest : List α)

/-- Append input that arrives later. -/
def Move.append (ys : List α) : Move σ α ρ → Move σ α ρ
  | .wait => .wait
  | .more s rest => .more s (rest ++ ys)
  | .stop r s rest => .stop r s (rest ++ ys)

/-- A reader whose decisions are stable under later input and which reads something whenever it
goes on. -/
structure Reader (σ α ρ : Type*) where
  next : σ → List α → Move σ α ρ
  next_append : ∀ (s : σ) (xs ys : List α), next s xs ≠ .wait →
    next s (xs ++ ys) = (next s xs).append ys
  length_lt : ∀ {s t : σ} {xs rest : List α}, next s xs = .more t rest → rest.length < xs.length

namespace Reader

variable (R : Reader σ α ρ)

/-- Run the reader until it waits (no verdict) or stops. -/
def read (s : σ) (xs : List α) : Option ρ × σ × List α :=
  match _h : R.next s xs with
  | .wait => (none, s, xs)
  | .more t rest => read t rest
  | .stop r t rest => (some r, t, rest)
termination_by xs.length
decreasing_by exact R.length_lt _h

variable {R}

theorem read_of_wait {s : σ} {xs : List α} (h : R.next s xs = .wait) :
    R.read s xs = (none, s, xs) := by
  rw [read]; split <;> simp_all

theorem read_of_more {s t : σ} {xs rest : List α} (h : R.next s xs = .more t rest) :
    R.read s xs = R.read t rest := by
  rw [read]; split <;> simp_all

theorem read_of_stop {s t : σ} {xs rest : List α} {r : ρ} (h : R.next s xs = .stop r t rest) :
    R.read s xs = (some r, t, rest) := by
  rw [read]; split <;> simp_all

/-- A reader that has come to a halt without a verdict waits where it is. -/
theorem next_of_read_none {s t : σ} {xs rest : List α} (h : R.read s xs = (none, t, rest)) :
    R.next t rest = .wait := by
  induction s, xs using read.induct R with
  | case1 s xs hw =>
    rw [read_of_wait hw] at h
    cases h
    exact hw
  | case2 s xs u mid hm ih =>
    rw [read_of_more hm] at h
    exact ih h
  | case3 s xs r u mid hs =>
    rw [read_of_stop hs] at h
    cases h

/-- A verdict comes from a stop. -/
theorem stop_of_read_some {s t : σ} {xs rest : List α} {r : ρ}
    (h : R.read s xs = (some r, t, rest)) : ∃ u mid, R.next u mid = .stop r t rest := by
  induction s, xs using read.induct R with
  | case1 s xs hw =>
    rw [read_of_wait hw] at h
    cases h
  | case2 s xs u mid hm ih =>
    rw [read_of_more hm] at h
    exact ih h
  | case3 s xs r' u mid hs =>
    rw [read_of_stop hs] at h
    cases h
    exact ⟨s, xs, hs⟩

/-- A reader that waits after `xs` takes up later input where it stands. -/
theorem read_append_of_none {s t : σ} {xs rest : List α} (h : R.read s xs = (none, t, rest))
    (ys : List α) : R.read s (xs ++ ys) = R.read t (rest ++ ys) := by
  induction s, xs using read.induct R with
  | case1 s xs hw =>
    rw [read_of_wait hw] at h
    cases h
    rfl
  | case2 s xs u mid hm ih =>
    rw [read_of_more hm] at h
    have hn := R.next_append s xs ys (by simp [hm])
    rw [hm] at hn
    rw [read_of_more hn]
    exact ih h
  | case3 s xs r u mid hs =>
    rw [read_of_stop hs] at h
    cases h

/-- A verdict stands, and later input stays unread. -/
theorem read_append_of_some {s t : σ} {xs rest : List α} {r : ρ}
    (h : R.read s xs = (some r, t, rest)) (ys : List α) :
    R.read s (xs ++ ys) = (some r, t, rest ++ ys) := by
  induction s, xs using read.induct R with
  | case1 s xs hw =>
    rw [read_of_wait hw] at h
    cases h
  | case2 s xs u mid hm ih =>
    rw [read_of_more hm] at h
    have hn := R.next_append s xs ys (by simp [hm])
    rw [hm] at hn
    rw [read_of_more hn]
    exact ih h
  | case3 s xs r' u mid hs =>
    rw [read_of_stop hs] at h
    cases h
    have hn := R.next_append s xs ys (by simp [hs])
    rw [hs] at hn
    exact read_of_stop hn

variable (R)

/-- Hand the chunks to the reader one at a time, until it stops: the verdict, the state, the
unread input and the chunks not handed over. -/
def feed (s : σ) (unread : List α) : List (List α) → Option ρ × σ × List α × List (List α)
  | [] => (none, s, unread, [])
  | c :: cs =>
    match R.read s (unread ++ c) with
    | (none, t, rest) => feed t rest cs
    | (some r, t, rest) => (some r, t, rest, cs)

variable {R}

/-- **The cuts do not matter.**  From a state in which the reader waits, feeding chunks ends with
the verdict and the state of one `read` of everything, whose unread input is the unread input of
the feed followed by the chunks not fed. -/
theorem feed_eq_read {s t : σ} {unread rest : List α} {v : Option ρ} {cs left : List (List α)}
    (hw : R.next s unread = .wait) (h : R.feed s unread cs = (v, t, rest, left)) :
    R.read s (unread ++ cs.flatten) = (v, t, rest ++ left.flatten) := by
  induction cs generalizing s unread with
  | nil =>
    cases h
    simpa using read_of_wait hw
  | cons c cs ih =>
    rw [feed] at h
    rw [List.flatten_cons, ← List.append_assoc]
    rcases hread : R.read s (unread ++ c) with ⟨v', u, mid⟩
    rw [hread] at h
    cases v' with
    | none =>
      rw [read_append_of_none hread]
      exact ih (next_of_read_none hread) h
    | some r =>
      cases h
      exact read_append_of_some hread _

end Reader

end Incremental
