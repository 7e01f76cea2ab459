import Mathlib.Data.List.Basic

/-!
# Sequences cut into blocks

`CutInto f ys xs`: the sequence `xs` is cut into consecutive blocks, and `ys` are the images of the
blocks under `f`, in order.  With `f` the bytes of some lines, the elements of `ys` are chunks of
the stream that hold whole lines only.  Chunks may be put one behind the other (`CutInto.append`),
the last one may grow (`CutInto.grow`), and chunks may be joined to larger ones as long as `f`
respects appending (`CutInto.join`).

A sequence whose keys are in order is cut by them: `flatMap_filter_key` puts its parts together
again, taken one key after the other.
-/

variable {α β : Type*}

/-- `ys` are the images of consecutive blocks of `xs`. -/
def CutInto (f : List α → β) (ys : List β) (xs : List α) : Prop :=
  ∃ blocks : List (List α), ys = blocks.map f ∧ blocks.flatten = xs

namespace CutInto

theorem nil (f : List α → β) : CutInto f [] [] := ⟨[], rfl, rfl⟩

/-- One chunk. -/
theorem single (f : List α → β) (xs : List α) : CutInto f [f xs] xs :=
  ⟨[xs], rfl, List.append_nil xs⟩

theorem append {f : List α → β} {ys zs : List β} {xs ws : List α} (hys : CutInto f ys xs)
    (hzs : CutInto f zs ws) : CutInto f (ys ++ zs) (xs ++ ws) := by
  obtain ⟨bs, rfl, rfl⟩ := hys
  obtain ⟨cs, rfl, rfl⟩ := hzs
  exact ⟨bs ++ cs, (List.map_append).symm, List.flatten_append⟩

/-- The chunks in front of a place. -/
theorem front {f : List α → β} {ys zs : List β} {xs : List α} (h : CutInto f (ys ++ zs) xs) :
    ∃ pre, pre <+: xs ∧ CutInto f ys pre := by
  obtain ⟨blocks, hmap, rfl⟩ := h
  obtain ⟨bs, cs, rfl, rfl, rfl⟩ := List.append_eq_map_iff.1 hmap
  refine ⟨bs.flatten, ?_, bs, rfl, rfl⟩
  rw [List.flatten_append]
  exact List.prefix_append _ _

section Hom

variable {γ : Type*} {f : List α → List γ}

/-- The last chunk grows by an element of the sequence. -/
theorem grow (hf : ∀ as bs, f (as ++ bs) = f as ++ f bs) {ys : List (List γ)} {y : List γ}
    {xs : List α} (h : CutInto f (ys ++ [y]) xs) (zs : List α) :
    CutInto f (ys ++ [y ++ f zs]) (xs ++ zs) := by
  obtain ⟨blocks, hmap, rfl⟩ := h
  obtain ⟨bs, cs, rfl, rfl, hlast⟩ := List.append_eq_map_iff.1 hmap
  obtain ⟨b, rfl, rfl⟩ := List.map_eq_singleton_iff.1 hlast
  refine ⟨bs ++ [b ++ zs], ?_, ?_⟩
  · rw [List.map_append, List.map_singleton, hf]
  · simp

/-- All chunks together are the image of the whole sequence. -/
theorem flatten_eq (hnil : f [] = []) (hf : ∀ as bs, f (as ++ bs) = f as ++ f bs)
    {ys : List (List γ)} {xs : List α} (h : CutInto f ys xs) : ys.flatten = f xs := by
  obtain ⟨blocks, rfl, rfl⟩ := h
  induction blocks with
  | nil => exact hnil.symm
  | cons b blocks ih => rw [List.map_cons, List.flatten_cons, List.flatten_cons, hf, ih]

/-- Neighbouring chunks may be joined. -/
theorem join (hnil : f [] = []) (hf : ∀ as bs, f (as ++ bs) = f as ++ f bs)
    {yss : List (List (List γ))} {xs : List α} (h : CutInto f yss.flatten xs) :
    CutInto f (yss.map List.flatten) xs := by
  induction yss generalizing xs with
  | nil => exact h
  | cons ys yss ih =>
    obtain ⟨blocks, hmap, rfl⟩ := h
    rw [List.flatten_cons] at hmap
    obtain ⟨bs, cs, rfl, hys, hyss⟩ := List.append_eq_map_iff.1 hmap
    rw [List.map_cons, List.flatten_append, ← List.singleton_append]
    refine append ?_ (ih ⟨cs, hyss.symm, rfl⟩)
    rw [flatten_eq hnil hf ⟨bs, hys.symm, rfl⟩]
    exact single f _

end Hom

end CutInto

/-! ### Sequences in the order of a key -/

section Key

variable {κ : Type*} [DecidableEq κ] {r : κ → κ → Prop} {key : α → κ}

/-- The elements with the least key come first. -/
theorem filter_key_append {k : κ} {ks : List κ} (hks : ∀ k' ∈ ks, r k k') {xs : List α}
    (hxs : (xs.map key).Pairwise fun a b => ¬ r b a) (hmem : ∀ x ∈ xs, key x ∈ k :: ks) :
    xs.filter (fun x => key x = k) ++ xs.filter (fun x => key x ≠ k) = xs := by
  induction xs with
  | nil => rfl
  | cons x xs ih =>
    rw [List.map_cons, List.pairwise_cons] at hxs
    obtain ⟨hx, hxs⟩ := hxs
    have htail := ih hxs fun y hy => hmem y (List.mem_cons_of_mem x hy)
    by_cases hk : key x = k
    · rw [List.filter_cons_of_pos (by simpa using hk), List.filter_cons_of_neg (by simpa using hk),
        List.cons_append, htail]
    · have hlt : r k (key x) := by
        rcases List.mem_cons.1 (hmem x List.mem_cons_self) with h | h
        · exact absurd h hk
        · exact hks _ h
      have hne : ∀ y ∈ xs, key y ≠ k := by
        intro y hy heq
        exact hx _ (List.mem_map_of_mem hy) (heq ▸ hlt)
      rw [List.filter_cons_of_neg (by simpa using hk), List.filter_cons_of_pos (by simpa using hk),
        List.filter_eq_nil_iff.2 (by simpa using hne), List.filter_eq_self.2 (by simpa using hne),
        List.nil_append]

/-- **The parts of a sequence in the order of its keys**, taken one key after the other. -/
theorem flatMap_filter_key (hirr : ∀ k, ¬ r k k) {ks : List κ} (hks : ks.Pairwise r) {xs : List α}
    (hxs : (xs.map key).Pairwise fun a b => ¬ r b a) (hmem : ∀ x ∈ xs, key x ∈ ks) :
    ks.flatMap (fun k => xs.filter fun x => key x = k) = xs := by
  induction ks generalizing xs with
  | nil =>
    cases xs with
    | nil => rfl
    | cons x xs => exact absurd (hmem x List.mem_cons_self) List.not_mem_nil
  | cons k ks ih =>
    obtain ⟨hk, hks⟩ := List.pairwise_cons.1 hks
    have hsplit := filter_key_append hk hxs hmem
    have hrest : ks.flatMap (fun k' => xs.filter fun x => key x = k') =
        ks.flatMap fun k' => (xs.filter fun x => key x ≠ k).filter fun x => key x = k' := by
      refine List.flatMap_congr fun k' hk' => ?_
      rw [List.filter_filter]
      refine List.filter_congr fun x _ => ?_
      have hne : k' ≠ k := fun heq => hirr k (by simpa [heq] using hk k' hk')
      by_cases hx : key x = k'
      · simp [hx, hne]
      · simp [hx]
    rw [List.flatMap_cons, hrest, ih hks]
    · exact hsplit
    · exact hxs.sublist ((List.filter_sublist).map key)
    · intro x hx
      obtain ⟨hx, hne⟩ := List.mem_filter.1 hx
      rcases List.mem_cons.1 (hmem x hx) with h | h
      · exact absurd h (by simpa using hne)
      · exact h

end Key
