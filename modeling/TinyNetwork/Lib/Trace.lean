import Mathlib.Data.List.Basic

/-!
# Order in a trace

`Around mark before after tr` says what stands around the marked events of a trace: `before` holds
of what precedes one, and `after` of each event that follows one.  A trace grows at its end, so the
rules are about appending: `around_concat` for one event and `Around.append` for events none of
which is marked.
-/

namespace Trace

variable {α : Type*}

/-- Around every marked event, `before` holds of the events before it and `after` of each one
behind it. -/
def Around (mark : α → Prop) (before : List α → Prop) (after : α → Prop) (tr : List α) : Prop :=
  ∀ pre e post, tr = pre ++ e :: post → mark e → before pre ∧ ∀ f ∈ post, after f

variable {mark : α → Prop} {before : List α → Prop} {after : α → Prop} {tr : List α}

theorem around_nil : Around mark before after [] := by
  intro pre e post h
  simp at h

theorem split_concat {pre post : List α} {d e : α} (h : tr ++ [d] = pre ++ e :: post) :
    (pre = tr ∧ e = d ∧ post = []) ∨ ∃ post', post = post' ++ [d] ∧ tr = pre ++ e :: post' := by
  rcases post.eq_nil_or_concat' with rfl | ⟨post', f, rfl⟩
  · refine .inl ?_
    have hlast := List.append_inj' h rfl
    simpa [eq_comm] using hlast
  · refine .inr ⟨post', ?_⟩
    have hlast : tr ++ [d] = (pre ++ e :: post') ++ [f] := by simpa using h
    simpa [eq_comm, and_comm] using List.append_inj' hlast rfl

theorem around_concat {d : α} (h : Around mark before after tr) (hbefore : mark d → before tr)
    (hafter : (∃ e ∈ tr, mark e) → after d) : Around mark before after (tr ++ [d]) := by
  intro pre e post hsplit he
  rcases split_concat hsplit with ⟨rfl, rfl, rfl⟩ | ⟨post', rfl, htr⟩
  · exact ⟨hbefore he, by simp⟩
  · obtain ⟨hpre, hpost⟩ := h pre e post' htr he
    refine ⟨hpre, fun f hf => ?_⟩
    rcases List.mem_append.1 hf with hf | hf
    · exact hpost f hf
    · rw [List.mem_singleton.1 hf]
      exact hafter ⟨e, by simp [htr], he⟩

theorem Around.append {es : List α} (h : Around mark before after tr)
    (hes : ∀ e ∈ es, ¬ mark e) (hafter : (∃ e ∈ tr, mark e) → ∀ e ∈ es, after e) :
    Around mark before after (tr ++ es) := by
  induction es generalizing tr with
  | nil => rwa [List.append_nil]
  | cons e es ih =>
    rw [← List.singleton_append, ← List.append_assoc]
    have he : ¬ mark e := hes e List.mem_cons_self
    refine ih (around_concat h (fun hm => absurd hm he) fun hm => hafter hm e List.mem_cons_self)
      (fun f hf => hes f (List.mem_cons_of_mem _ hf)) ?_
    rintro ⟨f, hf, hm⟩ g hg
    rcases List.mem_append.1 hf with hf | hf
    · exact hafter ⟨f, hf, hm⟩ g (List.mem_cons_of_mem _ hg)
    · rw [List.mem_singleton.1 hf] at hm
      exact absurd hm he

end Trace
