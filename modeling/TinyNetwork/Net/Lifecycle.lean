import TinyNetwork.Lib.Run
import TinyNetwork.Lib.Trace
import TinyNetwork.Net.EventLoop

/-!
# The life of a connection in a `TcpServer`

An accepted connection is established in its I/O loop, has events there, is closed there, is
removed from `connections_` in the base loop, and is destroyed in its I/O loop.  `Lifecycle.step`
is this life as an automaton over what happens to the connection: it also says on which loop's
thread, in which phase of that loop, and with or without an entry in `connections_`.

`ordered_of_run`: in a history the automaton accepts, no stage of the life is repeated or passed
over.
-/

namespace TinyNetwork

open Lts Trace

/-- An event loop of the server: the base loop is number `0`, `loops_[i]` is number `i + 1`. -/
abbrev LoopId := ℕ

def baseLoop : LoopId := 0

namespace Lifecycle

/-- The functions that make up the life of a connection; `handleEvent` stands for the handlers of
`Channel::handleEvent` other than `handleClose`. -/
inductive Action
  | connectEstablished
  | handleEvent
  | handleClose
  | removeConnectionInLoop
  | connectDestroyed
  deriving DecidableEq

/-- A call of one of them: on which loop's thread, in which phase of that loop, and whether the
connection had an entry in `connections_`. -/
structure Event where
  action : Action
  loop : LoopId
  phase : EventLoop.Phase
  listed : Bool
  deriving DecidableEq

inductive Stage
  | accepted
  | established
  | closed
  | removed
  | destroyed
  deriving DecidableEq

/-- The number of stages behind. -/
def Stage.rank : Stage → ℕ
  | .accepted => 0
  | .established => 1
  | .closed => 2
  | .removed => 3
  | .destroyed => 4

/-- The rank of the stage that an action ends; `handleEvent` ends none. -/
def Action.rank : Action → Option ℕ
  | .connectEstablished => some 0
  | .handleEvent => none
  | .handleClose => some 1
  | .removeConnectionInLoop => some 2
  | .connectDestroyed => some 3

/-- The stages in which `connections_` has the connection. -/
def Stage.listed : Stage → Prop
  | .accepted => True
  | .established => True
  | .closed => True
  | .removed => False
  | .destroyed => False

theorem not_listed_iff {stage : Stage} : ¬ stage.listed ↔ 2 < stage.rank := by
  cases stage <;> simp [Stage.listed, Stage.rank]

/-- One call. -/
def step (ioLoop : LoopId) (stage : Stage) (e : Event) : Option Stage :=
  match e.action, stage with
  | .connectEstablished, .accepted => if e.loop = ioLoop then some .established else none
  | .handleEvent, .established => if e.loop = ioLoop then some .established else none
  | .handleEvent, .closed => if e.loop = ioLoop then some .closed else none
  | .handleEvent, .removed => if e.loop = ioLoop then some .removed else none
  | .handleClose, .established => if e.loop = ioLoop then some .closed else none
  | .removeConnectionInLoop, .closed => if e.loop = baseLoop then some .removed else none
  | .connectDestroyed, .removed =>
    if e.loop = ioLoop ∧ e.phase = .functors ∧ e.listed = false then some .destroyed else none
  | _, _ => none

variable {ioLoop : LoopId} {s t : Stage} {e : Event}

/-- An action ends the stage of its rank, and an event leaves the stage as it is. -/
theorem step_rank (h : step ioLoop s e = some t) :
    (e.action = .handleEvent ∧ t = s ∧ 0 < s.rank) ∨
      (e.action.rank = some s.rank ∧ t.rank = s.rank + 1) := by
  unfold step at h
  split at h <;> try cases h
  all_goals
    rename_i haction
    split_ifs at h
    cases h
    rw [haction]
    first
      | exact .inl ⟨rfl, rfl, by decide⟩
      | exact .inr ⟨rfl, rfl⟩

theorem rank_le_of_step (h : step ioLoop s e = some t) : s.rank ≤ t.rank := by
  rcases step_rank h with ⟨-, rfl, -⟩ | ⟨-, hrank⟩
  · exact Nat.le_refl _
  · omega

theorem rank_le_of_run {es : List Event} (h : run (step ioLoop) s es = some t) :
    s.rank ≤ t.rank :=
  run_preserves (fun _ _ _ hle hstep => Nat.le_trans hle (rank_le_of_step hstep))
    (Nat.le_refl _) h

theorem eq_of_rank_eq {a b : Action} (ha : a ≠ .handleEvent) (h : b.rank = a.rank) : b = a := by
  cases a <;> cases b <;> first | rfl | exact absurd rfl ha | cases h

/-- An action is behind exactly when its stage is. -/
theorem mem_iff {es : List Event} (h : run (step ioLoop) .accepted es = some t) {a : Action}
    {n : ℕ} (ha : a.rank = some n) : (∃ e ∈ es, e.action = a) ↔ n < t.rank := by
  have hne : a ≠ .handleEvent := by
    rintro rfl
    cases ha
  constructor
  · rintro ⟨e, he, hea⟩
    obtain ⟨pre, post, rfl⟩ := List.append_of_mem he
    obtain ⟨u, v, hu, hv, hpost⟩ := run_append_cons_eq_some.1 h
    have hle := rank_le_of_run hpost
    rcases step_rank hv with ⟨hevent, -⟩ | ⟨hrank, hnext⟩
    · exact absurd (hea.symm.trans hevent) hne
    · rw [hea, ha, Option.some.injEq] at hrank
      omega
  · -- the step into a rank above `n` is the action
    intro hn
    obtain ⟨e, he, u, v, hu, hstep, hv⟩ :=
      exists_step_of_run (P := fun u => n < u.rank) (Nat.not_lt_zero n) hn h
    refine ⟨e, he, eq_of_rank_eq hne ?_⟩
    rcases step_rank hstep with ⟨-, rfl, -⟩ | ⟨hrank, hnext⟩
    · exact absurd hv hu
    · rw [hrank, ha, show u.rank = n by omega]

/-- An action is not repeated, and the ones of the stages before it come before it. -/
theorem around_action {es : List Event} (h : run (step ioLoop) .accepted es = some t) {a : Action}
    {n : ℕ} (ha : a.rank = some n) :
    Around (·.action = a) (fun pre => ∀ b m, b.rank = some m → m < n → ∃ f ∈ pre, f.action = b)
      (·.action ≠ a) es := by
  rintro pre e post rfl hea
  obtain ⟨u, v, hu, hv, hpost⟩ := run_append_cons_eq_some.1 h
  have hbehind : u.rank = n ∧ v.rank = n + 1 := by
    rcases step_rank hv with ⟨hevent, -⟩ | ⟨hrank, hnext⟩
    · rw [hea] at hevent
      rw [hevent] at ha
      cases ha
    · rw [hea, ha, Option.some.injEq] at hrank
      exact ⟨hrank.symm, hrank ▸ hnext⟩
  refine ⟨fun b m hb hm => (mem_iff hu hb).2 (hbehind.1 ▸ hm), fun f hf hfa => ?_⟩
  -- a second one would start where the first one ended, or later
  obtain ⟨mid, last, rfl⟩ := List.append_of_mem hf
  obtain ⟨w, x, hw, hx, -⟩ := run_append_cons_eq_some.1 hpost
  have hle := rank_le_of_run hw
  rcases step_rank hx with ⟨hevent, -⟩ | ⟨hrank, -⟩
  · rw [hfa] at hevent
    rw [hevent] at ha
    cases ha
  · rw [hfa, ha, Option.some.injEq] at hrank
    omega

/-- Nothing happens to a connection before it is established. -/
theorem around_established {es : List Event} (h : run (step ioLoop) .accepted es = some t) :
    Around (·.action ≠ .connectEstablished)
      (fun pre => ∃ f ∈ pre, f.action = .connectEstablished) (fun _ => True) es := by
  rintro pre e post rfl hne
  refine ⟨?_, fun _ _ => trivial⟩
  obtain ⟨u, v, hu, hv, -⟩ := run_append_cons_eq_some.1 h
  refine (mem_iff hu (a := .connectEstablished) rfl).2 ?_
  rcases step_rank hv with ⟨-, -, hpos⟩ | ⟨hrank, -⟩
  · exact hpos
  · refine Nat.pos_of_ne_zero fun hzero => hne ?_
    exact eq_of_rank_eq (a := .connectEstablished) (by decide) (hrank.trans (by rw [hzero]; rfl))

/-- Where an action runs. -/
def Action.Placed (ioLoop : LoopId) (e : Event) : Action → Prop
  | .connectEstablished => e.loop = ioLoop
  | .handleEvent => e.loop = ioLoop
  | .handleClose => e.loop = ioLoop
  | .removeConnectionInLoop => e.loop = baseLoop
  | .connectDestroyed => e.loop = ioLoop ∧ e.phase = .functors ∧ e.listed = false

theorem placed_of_step (h : step ioLoop s e = some t) : e.action.Placed ioLoop e := by
  unfold step at h
  split at h <;> try cases h
  all_goals
    rename_i haction
    split_ifs at h with hplace
    rw [haction]
    exact hplace

theorem placed_of_run {es : List Event} (h : run (step ioLoop) s es = some t) :
    ∀ e ∈ es, e.action.Placed ioLoop e := by
  intro e he
  obtain ⟨pre, post, rfl⟩ := List.append_of_mem he
  obtain ⟨u, v, -, hv, -⟩ := run_append_cons_eq_some.1 h
  exact placed_of_step hv

/-- What the automaton says about a history: every function runs at most once, where it belongs,
and behind the one of the stage before. -/
structure Ordered (ioLoop : LoopId) (es : List Event) : Prop where
  established_once : Around (·.action = .connectEstablished) (fun _ => True)
    (·.action ≠ .connectEstablished) es
  established_first : Around (·.action ≠ .connectEstablished)
    (fun pre => ∃ f ∈ pre, f.action = .connectEstablished) (fun _ => True) es
  removed_closed : Around (·.action = .removeConnectionInLoop)
    (fun pre => ∃ f ∈ pre, f.action = .handleClose) (·.action ≠ .removeConnectionInLoop) es
  destroyed_removed : Around (·.action = .connectDestroyed)
    (fun pre => ∃ f ∈ pre, f.action = .removeConnectionInLoop) (·.action ≠ .connectDestroyed) es
  placed : ∀ e ∈ es, e.action.Placed ioLoop e

theorem ordered_of_run {es : List Event} (h : run (step ioLoop) .accepted es = some t) :
    Ordered ioLoop es where
  established_once pre e post hes he :=
    ⟨trivial, (around_action h (a := .connectEstablished) rfl pre e post hes he).2⟩
  established_first := around_established h
  removed_closed pre e post hes he := by
    obtain ⟨hbefore, hafter⟩ := around_action h (a := .removeConnectionInLoop) rfl pre e post hes he
    exact ⟨hbefore .handleClose 1 rfl (by decide), hafter⟩
  destroyed_removed pre e post hes he := by
    obtain ⟨hbefore, hafter⟩ := around_action h (a := .connectDestroyed) rfl pre e post hes he
    exact ⟨hbefore .removeConnectionInLoop 2 rfl (by decide), hafter⟩
  placed := placed_of_run h

end Lifecycle

end TinyNetwork
