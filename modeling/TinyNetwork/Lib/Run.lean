import Mathlib.Data.List.Basic

/-!
# Runs of a labelled step function

A system is given by a partial step function `step : σ → ℓ → Option σ`: the label says which
party moves and carries every choice the system does not make itself (a thread, the answer of a
system call), and `none` says that the label is not enabled in that state.  `run` executes a list
of labels.  The rules below are the ones used to reason about runs of any length: splitting a run
(`run_append`, `run_concat_eq_some`), invariants (`run_preserves`, `run_induction`, `run_history`),
invariants of the runs whose steps all meet a condition (`Along`, `run_preserves_along`), the step
that enters a property (`exists_step_of_run`), amounts that are summed up along a run (`tally`),
and what its steps emit (`emitted`).
-/

namespace Lts

variable {σ ℓ : Type*}

/-- Execute the labels in order; `none` as soon as one of them is not enabled. -/
def run (step : σ → ℓ → Option σ) : σ → List ℓ → Option σ
  | s, [] => some s
  | s, l :: ls => (step s l).bind fun t => run step t ls

variable {step : σ → ℓ → Option σ}

@[simp] theorem run_nil (s : σ) : run step s [] = some s := rfl

theorem run_cons (s : σ) (l : ℓ) (ls : List ℓ) :
    run step s (l :: ls) = (step s l).bind fun t => run step t ls := rfl

theorem run_cons_eq_some {s t : σ} {l : ℓ} {ls : List ℓ} :
    run step s (l :: ls) = some t ↔ ∃ u, step s l = some u ∧ run step u ls = some t := by
  rw [run_cons, Option.bind_eq_some_iff]

theorem run_append (s : σ) (ls ms : List ℓ) :
    run step s (ls ++ ms) = (run step s ls).bind fun t => run step t ms := by
  induction ls generalizing s with
  | nil => rfl
  | cons l ls ih =>
    rw [List.cons_append, run_cons, run_cons]
    cases step s l with
    | none => rfl
    | some t => exact ih t

theorem run_append_eq_some {s t : σ} {ls ms : List ℓ} :
    run step s (ls ++ ms) = some t ↔
      ∃ u, run step s ls = some u ∧ run step u ms = some t := by
  rw [run_append, Option.bind_eq_some_iff]

/-- A run with its last step. -/
theorem run_concat_eq_some {s u : σ} {ls : List ℓ} {l : ℓ} :
    run step s (ls ++ [l]) = some u ↔ ∃ t, run step s ls = some t ∧ step t l = some u := by
  rw [run_append_eq_some]
  refine exists_congr fun t => and_congr_right fun _ => ?_
  rw [run_cons_eq_some]
  exact ⟨fun ⟨_, hstep, hnil⟩ => hstep.trans hnil, fun hstep => ⟨u, hstep, rfl⟩⟩

/-- A run with a step in the middle. -/
theorem run_append_cons_eq_some {s t : σ} {pre post : List ℓ} {l : ℓ} :
    run step s (pre ++ l :: post) = some t ↔
      ∃ u v, run step s pre = some u ∧ step u l = some v ∧ run step v post = some t := by
  rw [run_append_eq_some]
  refine exists_congr fun u => ?_
  rw [run_cons_eq_some, exists_and_left]

/-- A state is reachable when some list of labels leads to it. -/
def Reachable (step : σ → ℓ → Option σ) (s t : σ) : Prop := ∃ ls, run step s ls = some t

/-- What every step preserves, every run preserves. -/
theorem run_preserves {P : σ → Prop}
    (hstep : ∀ s l t, P s → step s l = some t → P t) {s t : σ} {ls : List ℓ}
    (hs : P s) (h : run step s ls = some t) : P t := by
  induction ls generalizing s with
  | nil => cases h; exact hs
  | cons l ls ih =>
    obtain ⟨u, hu, hrest⟩ := run_cons_eq_some.1 h
    exact ih (hstep s l u hs hu) hrest

/-- The same for a property that also mentions the labels so far. -/
theorem run_induction {P : List ℓ → σ → Prop} {s t : σ} {ls : List ℓ} (hs : P [] s)
    (hstep : ∀ ms u l v, P ms u → step u l = some v → P (ms ++ [l]) v)
    (h : run step s ls = some t) : P ls t := by
  induction ls generalizing s P with
  | nil => cases h; exact hs
  | cons l ls ih =>
    obtain ⟨u, hu, hrest⟩ := run_cons_eq_some.1 h
    exact ih (P := fun ms => P (l :: ms)) (hstep [] s l u hs hu)
      (fun ms v m w hv hw => hstep (l :: ms) v m w hv hw) hrest

/-- The same for a property whose steps also use the run so far. -/
theorem run_history {P : List ℓ → σ → Prop} {s t : σ} {ls : List ℓ} (hs : P [] s)
    (hstep : ∀ ms u l v, run step s ms = some u → P ms u → step u l = some v → P (ms ++ [l]) v)
    (h : run step s ls = some t) : P ls t := by
  have hboth : run step s ls = some t ∧ P ls t := by
    refine run_induction (P := fun ms u => run step s ms = some u ∧ P ms u) ⟨rfl, hs⟩ ?_ h
    rintro ms u l v ⟨hu, hP⟩ hv
    exact ⟨run_concat_eq_some.2 ⟨u, hu, hv⟩, hstep ms u l v hu hP hv⟩
  exact hboth.2

/-- A run into `P` from outside it has a step that enters `P`. -/
theorem exists_step_of_run {P : σ → Prop} {s t : σ} {ls : List ℓ} (hs : ¬ P s) (ht : P t)
    (h : run step s ls = some t) : ∃ l ∈ ls, ∃ u v, ¬ P u ∧ step u l = some v ∧ P v := by
  induction ls generalizing s with
  | nil => cases h; exact absurd ht hs
  | cons l ls ih =>
    obtain ⟨u, hu, hrest⟩ := run_cons_eq_some.1 h
    by_cases hPu : P u
    · exact ⟨l, List.mem_cons_self, s, u, hs, hu, hPu⟩
    · obtain ⟨m, hm, hstep⟩ := ih hPu hrest
      exact ⟨m, List.mem_cons_of_mem _ hm, hstep⟩

/-- Every step of the run starts in a state and with a label that meet `C`. -/
def Along (step : σ → ℓ → Option σ) (C : σ → ℓ → Prop) : σ → List ℓ → Prop
  | _, [] => True
  | s, l :: ls => C s l ∧ ∀ t, step s l = some t → Along step C t ls

theorem along_cons_of_step {C : σ → ℓ → Prop} {s t : σ} {l : ℓ} {ls : List ℓ}
    (h : step s l = some t) : Along step C s (l :: ls) ↔ C s l ∧ Along step C t ls := by
  refine and_congr_right fun _ => ⟨fun hnext => hnext t h, fun hnext u hu => ?_⟩
  rw [h] at hu
  cases hu
  exact hnext

/-- A condition that holds along a run holds along its beginning. -/
theorem Along.of_append {C : σ → ℓ → Prop} {s : σ} {ls ms : List ℓ}
    (h : Along step C s (ls ++ ms)) : Along step C s ls := by
  induction ls generalizing s with
  | nil => trivial
  | cons l ls ih => exact ⟨h.1, fun t ht => ih (h.2 t ht)⟩

/-- One more step has to meet the condition as well. -/
theorem along_concat {C : σ → ℓ → Prop} {s t : σ} {ls : List ℓ} (h : run step s ls = some t)
    (l : ℓ) : Along step C s (ls ++ [l]) ↔ Along step C s ls ∧ C t l := by
  induction ls generalizing s with
  | nil =>
    cases h
    exact ⟨fun hl => ⟨trivial, hl.1⟩, fun hl => ⟨hl.2, fun _ _ => trivial⟩⟩
  | cons m ls ih =>
    obtain ⟨u, hu, hrest⟩ := run_cons_eq_some.1 h
    rw [List.cons_append, along_cons_of_step hu, along_cons_of_step hu, ih hrest, and_assoc]

/-- An invariant of the steps that meet `C` turns `C` into `D` along a whole run. -/
theorem along_mono {C D : σ → ℓ → Prop} {I : σ → Prop}
    (hinv : ∀ s l t, I s → C s l → step s l = some t → I t)
    (hCD : ∀ s l, I s → C s l → D s l) {s : σ} (hs : I s) {ls : List ℓ}
    (hC : Along step C s ls) : Along step D s ls := by
  induction ls generalizing s with
  | nil => trivial
  | cons l ls ih =>
    exact ⟨hCD s l hs hC.1, fun t ht => ih (hinv s l t hs hC.1 ht) (hC.2 t ht)⟩

/-- Conditions that agree under an invariant agree along every run. -/
theorem along_congr {C D : σ → ℓ → Prop} {I : σ → Prop}
    (hinv : ∀ s l t, I s → step s l = some t → I t) (hiff : ∀ s l, I s → (C s l ↔ D s l))
    {s : σ} (hs : I s) (ls : List ℓ) : Along step C s ls ↔ Along step D s ls :=
  ⟨along_mono (fun s l t hs _ => hinv s l t hs) (fun s l hs => (hiff s l hs).1) hs,
    along_mono (fun s l t hs _ => hinv s l t hs) (fun s l hs => (hiff s l hs).2) hs⟩

/-- A condition that can be decided at each step can be decided along a run. -/
instance decidableAlong {C : σ → ℓ → Prop} [∀ s l, Decidable (C s l)] :
    ∀ (s : σ) (ls : List ℓ), Decidable (Along step C s ls)
  | _, [] => isTrue trivial
  | s, l :: ls =>
    match h : step s l with
    | some t =>
      have := decidableAlong (C := C) t ls
      decidable_of_iff (C s l ∧ Along step C t ls) (along_cons_of_step h).symm
    | none => decidable_of_iff (C s l) (by simp [Along, h])

/-- What the steps that meet `C` preserve, the runs made of such steps preserve. -/
theorem run_preserves_along {C : σ → ℓ → Prop} {P : σ → Prop}
    (hstep : ∀ s l t, P s → C s l → step s l = some t → P t) {s t : σ} {ls : List ℓ}
    (hs : P s) (hC : Along step C s ls) (h : run step s ls = some t) : P t := by
  induction ls generalizing s with
  | nil => cases h; exact hs
  | cons l ls ih =>
    obtain ⟨u, hu, hrest⟩ := run_cons_eq_some.1 h
    exact ih (hstep s l u hs hC.1 hu) (hC.2 u hu) hrest

/-- The same for a property that also mentions the labels so far. -/
theorem run_induction_along {C : σ → ℓ → Prop} {P : List ℓ → σ → Prop} {s t : σ} {ls : List ℓ}
    (hs : P [] s) (hstep : ∀ ms u l v, P ms u → C u l → step u l = some v → P (ms ++ [l]) v)
    (hC : Along step C s ls) (h : run step s ls = some t) : P ls t := by
  induction ls generalizing s P with
  | nil => cases h; exact hs
  | cons l ls ih =>
    obtain ⟨u, hu, hrest⟩ := run_cons_eq_some.1 h
    exact ih (P := fun ms => P (l :: ms)) (hstep [] s l u hs hC.1 hu)
      (fun ms v m w hv hm hw => hstep (l :: ms) v m w hv hm hw) (hC.2 u hu) hrest

/-- If, under an invariant `I`, a step keeps `P` exactly when it meets `C`, then `P` holds
throughout a run exactly when all its steps meet `C`. -/
theorem forall_prefix_iff_along {C : σ → ℓ → Prop} {I P : σ → Prop}
    (hinv : ∀ s l t, I s → step s l = some t → I t)
    (hstep : ∀ s l t, I s → P s → step s l = some t → (P t ↔ C s l)) {s t : σ} {ls : List ℓ}
    (hI : I s) (hP : P s) (h : run step s ls = some t) :
    (∀ ms u, ms <+: ls → run step s ms = some u → P u) ↔ Along step C s ls := by
  induction ls generalizing s with
  | nil =>
    refine ⟨fun _ => trivial, fun _ ms u hms hu => ?_⟩
    rw [List.prefix_nil.1 hms] at hu
    cases hu
    exact hP
  | cons l ls ih =>
    obtain ⟨v, hv, hrest⟩ := run_cons_eq_some.1 h
    have hIv : I v := hinv s l v hI hv
    constructor
    · intro hall
      have hPv : P v := hall [l] v ⟨ls, rfl⟩ (run_cons_eq_some.2 ⟨v, hv, rfl⟩)
      refine ⟨(hstep s l v hI hP hv).1 hPv, fun w hw => ?_⟩
      rw [hv] at hw
      cases hw
      refine (ih hIv hPv hrest).1 fun ms u hms hu => hall (l :: ms) u ?_ ?_
      · exact (List.prefix_cons_inj l).2 hms
      · exact run_cons_eq_some.2 ⟨v, hv, hu⟩
    · rintro ⟨hc, hnext⟩ ms u hms hu
      cases ms with
      | nil => cases hu; exact hP
      | cons m ms =>
        obtain ⟨rfl, hpre⟩ := List.cons_prefix_cons.1 hms
        obtain ⟨w, hw, hu⟩ := run_cons_eq_some.1 hu
        rw [hv] at hw
        cases hw
        have hPv : P v := (hstep s m v hI hP hv).2 hc
        exact (ih hIv hPv hrest).2 (hnext v hv) ms u hpre hu

/-- What the steps with a label in `C` preserve, the runs over such labels preserve. -/
theorem run_preserves_of_labels {C : ℓ → Prop} {P : σ → Prop}
    (hstep : ∀ s l t, P s → C l → step s l = some t → P t) {s t : σ} {ls : List ℓ}
    (hs : P s) (hls : ∀ l ∈ ls, C l) (h : run step s ls = some t) : P t := by
  induction ls generalizing s with
  | nil => cases h; exact hs
  | cons l ls ih =>
    obtain ⟨u, hu, hrest⟩ := run_cons_eq_some.1 h
    exact ih (hstep s l u hs (hls l List.mem_cons_self) hu)
      (fun m hm => hls m (List.mem_cons_of_mem _ hm)) hrest

/-- The sum of what the steps of a run amount to. -/
def tally (step : σ → ℓ → Option σ) (f : σ → ℓ → ℕ) : σ → List ℓ → ℕ
  | _, [] => 0
  | s, l :: ls =>
    f s l + match step s l with
      | some t => tally step f t ls
      | none => 0

/-- One more step adds what it amounts to. -/
theorem tally_concat {f : σ → ℓ → ℕ} {s t : σ} {ls : List ℓ} (h : run step s ls = some t) (l : ℓ) :
    tally step f s (ls ++ [l]) = tally step f s ls + f t l := by
  induction ls generalizing s with
  | nil =>
    cases h
    rw [List.nil_append, tally, tally, Nat.zero_add]
    cases step t l with
    | none => rfl
    | some u => rfl
  | cons m ls ih =>
    obtain ⟨u, hu, hrest⟩ := run_cons_eq_some.1 h
    rw [List.cons_append, tally, tally, hu]
    simp only [ih hrest]
    exact (Nat.add_assoc _ _ _).symm

/-- What the steps of a run emit, in order. -/
def emitted {α : Type*} (step : σ → ℓ → Option σ) (f : σ → ℓ → List α) : σ → List ℓ → List α
  | _, [] => []
  | s, l :: ls =>
    f s l ++ match step s l with
      | some t => emitted step f t ls
      | none => []

/-- One more step emits what it has to. -/
theorem emitted_concat {α : Type*} {f : σ → ℓ → List α} {s t : σ} {ls : List ℓ}
    (h : run step s ls = some t) (l : ℓ) :
    emitted step f s (ls ++ [l]) = emitted step f s ls ++ f t l := by
  induction ls generalizing s with
  | nil =>
    cases h
    rw [List.nil_append, emitted, emitted, List.nil_append]
    cases step t l with
    | none => exact List.append_nil _
    | some u => exact List.append_nil _
  | cons m ls ih =>
    obtain ⟨u, hu, hrest⟩ := run_cons_eq_some.1 h
    rw [List.cons_append, emitted, emitted, hu]
    simp only [ih hrest]
    exact (List.append_assoc _ _ _).symm

/-- The beginning of a run emits the beginning. -/
theorem emitted_mono {α : Type*} {f : σ → ℓ → List α} {ms ls : List ℓ} (h : ms <+: ls) (s : σ) :
    emitted step f s ms <+: emitted step f s ls := by
  induction ms generalizing s ls with
  | nil => exact List.nil_prefix
  | cons m ms ih =>
    obtain ⟨rest, rfl⟩ := h
    rw [List.cons_append, emitted, emitted]
    refine (List.prefix_append_right_inj _).2 ?_
    cases step s m with
    | none => exact List.prefix_refl _
    | some t => exact ih (List.prefix_append _ _) t

end Lts
