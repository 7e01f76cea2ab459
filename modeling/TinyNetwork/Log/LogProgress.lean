import TinyNetwork.Lib.Progress
import TinyNetwork.Log.BufferExchange
import TinyNetwork.Log.LogPipeline

/-!
# Lines reach the disk, and `stop()` returns

The back end is never blocked: its wait ends by itself.  `stepsToDisk` is the number of steps that
it has still to make until some lines are on disk, in the iteration that it is in or in the next
one, and `stepsToExit` until it has left its loop.  A call of `append` puts at most one buffer in
its way.

`lines_delivered`: however the steps are interleaved, lines are on disk when the back end has made
as many steps as there were buffers, nine more, and one for each later `append`.  `stop_returns`:
with `running_` cleared, it needs no more than that, but for three, to leave its loop, and the join
returns.
-/

namespace TinyNetwork

open Lts

namespace AsyncLogging

/-- A step of the back end. -/
def Label.isBackEnd : Label → Bool
  | .threadFunc => true
  | _ => false

def Label.isAppend : Label → Bool
  | .append _ _ => true
  | _ => false

/-- The steps of the back end until the first `n` lines are written and flushed. -/
def stepsToDisk (n : ℕ) (s : AsyncLogging) : ℕ :=
  if n ≤ s.swapped then
    match s.phase with
    | .write i => s.buffersToWrite.length - i + 2
    | .recycle => 1
    | _ => 0
  else
    s.buffers.length + 3 +
      match s.phase with
      | .waiting => 1
      | .lock => 2
      | .loopTest => 3
      | .write i => s.buffersToWrite.length - i + 5
      | _ => 4

/-- The steps of the back end until it has left its loop, when it is not to go on. -/
def stepsToExit (s : AsyncLogging) : ℕ :=
  match s.phase with
  | .waiting => s.buffers.length + 5
  | .lock => s.buffers.length + 6
  | .write i => s.buffersToWrite.length - i + 3
  | .recycle => 2
  | .loopTest => 1
  | _ => 0

theorem stepsToDisk_le (n : ℕ) (s : AsyncLogging) :
    s.stepsToDisk n ≤ s.buffers.length + s.buffersToWrite.length + 8 := by
  unfold stepsToDisk
  split_ifs
  · split <;> omega
  · split <;> omega

theorem stepsToExit_le (s : AsyncLogging) :
    s.stepsToExit ≤ s.buffers.length + s.buffersToWrite.length + 6 := by
  unfold stepsToExit
  split <;> omega

theorem stepsToExit_pos {s : AsyncLogging} (hnew : s.phase ≠ .notStarted)
    (hstarted : s.phase ≠ .assertRunning) (hexit : s.phase ≠ .exited) : 0 < s.stepsToExit := by
  cases h : s.phase with
  | notStarted => exact absurd h hnew
  | assertRunning => exact absurd h hstarted
  | exited => exact absurd h hexit
  | _ =>
    rw [stepsToExit, h]
    exact Nat.succ_pos _

/-! ### The steps of the back end -/

/-- What a step of the back end does to its place and its lists, when none of its assertions
fails. -/
inductive Moves (s t : AsyncLogging) : Prop
  | start (hphase : s.phase = .assertRunning) (ht : t.phase = .loopTest)
      (hbuffers : t.buffers = s.buffers) (hswapped : t.swapped = s.swapped)
  | enter (hrun : s.running = true) (hphase : s.phase = .loopTest) (ht : t.phase = .lock)
      (hbuffers : t.buffers = s.buffers) (hswapped : t.swapped = s.swapped)
  | leave (hrun : s.running = false) (hphase : s.phase = .loopTest) (ht : t.phase = .exited)
  | wait (hphase : s.phase = .lock) (ht : t.phase = .waiting) (hbuffers : t.buffers = s.buffers)
      (hswapped : t.swapped = s.swapped)
  | swap (hphase : s.phase = .lock ∨ s.phase = .waiting) (ht : t.phase = .write 0)
      (hbuffers : t.buffersToWrite.length = s.buffers.length + 1)
      (hswapped : t.swapped = s.lines.length)
  | write (i : ℕ) (hphase : s.phase = .write i) (ht : t.phase = .write (i + 1))
      (hlt : i < s.buffersToWrite.length) (hbuffers : t.buffers = s.buffers)
      (htoWrite : t.buffersToWrite = s.buffersToWrite) (hswapped : t.swapped = s.swapped)
  | writeEnd (i : ℕ) (hphase : s.phase = .write i) (ht : t.phase = .recycle)
      (hbuffers : t.buffers = s.buffers) (hswapped : t.swapped = s.swapped)
  | recycle (hphase : s.phase = .recycle) (ht : t.phase = .loopTest)
      (hbuffers : t.buffers = s.buffers) (hswapped : t.swapped = s.swapped)

/-- The only assertion that can fail is the one of `running_` in front of the loop. -/
theorem moves_of_threadFunc {s t : AsyncLogging} (hs : s.Exchange)
    (hassert : s.phase = .assertRunning → s.running = true) (h : s.threadFunc = some t) :
    s.Moves t := by
  unfold threadFunc at h
  cases hphase : s.phase with
  | notStarted => simp [hphase] at h
  | exited => simp [hphase] at h
  | assertRunning =>
    simp only [hphase, hassert hphase, if_true, Option.some.injEq] at h
    subst h
    exact .start hphase rfl rfl rfl
  | loopTest =>
    obtain ⟨hspare1, hspare2, hempty⟩ := hs.spares (.inl hphase)
    simp only [hphase, hspare1, hspare2, hempty, Bool.and_self, if_true, Option.some.injEq] at h
    subst h
    cases hrun : s.running with
    | true => exact .enter hrun hphase (by simp) (by simp) (by simp)
    | false => exact .leave hrun hphase (by simp)
  | lock =>
    simp only [hphase, Option.some.injEq] at h
    subst h
    split_ifs
    · exact .wait hphase rfl rfl rfl
    · exact .swap (.inl hphase) rfl List.length_append rfl
  | waiting =>
    simp only [hphase, Option.some.injEq] at h
    subst h
    exact .swap (.inr hphase) rfl List.length_append rfl
  | write i =>
    simp only [hphase] at h
    split at h
    · rename_i b hb
      cases h
      exact .write i hphase rfl (List.getElem?_eq_some_iff.1 hb).1 rfl rfl rfl
    · rename_i hnull
      cases (hs.given (.inl ⟨i, hphase⟩)).toWrite none (List.mem_of_getElem? hnull)
    · cases h
      exact .writeEnd i hphase rfl rfl rfl
  | recycle =>
    obtain ⟨p, rest, q, rest', hp, hq, -, -⟩ := (hs.given (.inr hphase)).refill
    simp only [hphase, AsyncLogging.recycle, hp, hq, Option.some.injEq] at h
    subst h
    exact .recycle hphase rfl rfl rfl

/-- The first `n` lines are written and flushed. -/
def Flushed (n : ℕ) (s : AsyncLogging) : Prop := n ≤ s.swapped ∧ ¬ LogPipeline.Busy s.phase

/-- While the lines wait, each step of the back end brings them nearer to the disk. -/
theorem stepsToDisk_of_moves {n : ℕ} {s t : AsyncLogging} (hn : n ≤ s.lines.length)
    (hrun : s.running = true) (hwait : ¬ s.Flushed n) (h : s.Moves t) :
    t.Flushed n ∨ t.stepsToDisk n + 1 ≤ s.stepsToDisk n := by
  have hlater : (∀ i, s.phase ≠ .write i) → s.phase ≠ .recycle → ¬ n ≤ s.swapped := by
    intro hwrite hrecycle hle
    exact hwait ⟨hle, by simp [LogPipeline.Busy, hwrite, hrecycle]⟩
  unfold stepsToDisk
  cases h with
  | start hphase ht hbuffers hswapped | enter _ hphase ht hbuffers hswapped
    | wait hphase ht hbuffers hswapped =>
    have hnot := hlater (by simp [hphase]) (by simp [hphase])
    rw [hswapped, if_neg hnot, if_neg hnot, hphase, ht, hbuffers]
    exact .inr (by simp)
  | leave hstop hphase ht =>
    rw [hrun] at hstop
    cases hstop
  | swap hphase ht hbuffers hswapped =>
    have hnot := hlater (by rcases hphase with h | h <;> simp [h])
      (by rcases hphase with h | h <;> simp [h])
    rw [hswapped, if_pos hn, if_neg hnot, ht]
    refine .inr ?_
    rcases hphase with hphase | hphase
    all_goals
      rw [hphase]
      dsimp only
      omega
  | write i hphase ht hlt hbuffers htoWrite hswapped =>
    rw [hswapped, hphase, ht, hbuffers, htoWrite]
    refine .inr ?_
    dsimp only
    split_ifs <;> omega
  | writeEnd i hphase ht hbuffers hswapped =>
    rw [hswapped, hphase, ht, hbuffers]
    refine .inr ?_
    dsimp only
    split_ifs <;> omega
  | recycle hphase ht hbuffers hswapped =>
    by_cases hle : n ≤ s.swapped
    · exact .inl ⟨by rw [hswapped]; exact hle, by simp [LogPipeline.Busy, ht]⟩
    · rw [hswapped, if_neg hle, if_neg hle, hphase, ht, hbuffers]
      exact .inr (by simp)

theorem stepsToExit_of_moves {s t : AsyncLogging} (hstop : s.running = false)
    (hstarted : s.phase ≠ .assertRunning) (h : s.Moves t) :
    t.stepsToExit + 1 ≤ s.stepsToExit := by
  unfold stepsToExit
  cases h with
  | start hphase => exact absurd hphase hstarted
  | enter hrun =>
    rw [hstop] at hrun
    cases hrun
  | leave _ hphase ht =>
    rw [hphase, ht]
  | wait hphase ht hbuffers =>
    rw [hphase, ht, hbuffers]
  | swap hphase ht hbuffers =>
    rw [ht]
    rcases hphase with hphase | hphase
    all_goals
      rw [hphase]
      dsimp only
      omega
  | write i hphase ht hlt hbuffers htoWrite =>
    rw [hphase, ht, htoWrite]
    dsimp only
    omega
  | writeEnd i hphase ht =>
    rw [hphase, ht]
    dsimp only
    omega
  | recycle hphase ht =>
    rw [hphase, ht]

/-! ### The other steps -/

/-- `append` fills at most one buffer. -/
theorem buffers_append (s : AsyncLogging) (logline : Bytes) :
    (s.append logline).buffers.length ≤ s.buffers.length + 1 ∧
      (s.append logline).buffersToWrite = s.buffersToWrite ∧
      (s.append logline).swapped = s.swapped ∧ (s.append logline).phase = s.phase ∧
      (s.append logline).running = s.running ∧ (s.append logline).main = s.main := by
  unfold append
  split
  · exact ⟨Nat.le_succ _, rfl, rfl, rfl, rfl, rfl⟩
  · split_ifs
    · exact ⟨Nat.le_succ _, rfl, rfl, rfl, rfl, rfl⟩
    · refine ⟨?_, rfl, rfl, rfl, rfl, rfl⟩
      simp

/-- A step that is not one of the back end. -/
structure Aside (s t : AsyncLogging) (l : Label) : Prop where
  buffers : t.buffers.length ≤ s.buffers.length + l.isAppend.toNat
  toWrite : t.buffersToWrite = s.buffersToWrite
  swapped : t.swapped = s.swapped
  lines : s.lines <+: t.lines
  phase : t.phase = s.phase ∨ s.phase = .notStarted ∧ t.phase = .assertRunning ∧ s.main = .starting

theorem aside_of_step {s t : AsyncLogging} {l : Label} (hs : s.Inv) (hl : l.isBackEnd = false)
    (h : step s l = some t) : s.Aside t l := by
  have hlive := live_of_step h
  unfold step at h
  rw [if_neg hlive] at h
  cases l with
  | threadFunc => cases hl
  | append tid logline =>
    simp only at h
    split_ifs at h
    cases h
    obtain ⟨hbuffers, htoWrite, hswapped, hphase, -⟩ := s.buffers_append logline
    exact ⟨hbuffers, htoWrite, hswapped, List.prefix_append _ _, .inl hphase⟩
  | startThread =>
    simp only at h
    split_ifs at h with hmain
    cases h
    exact ⟨Nat.le_add_right _ _, rfl, rfl, List.prefix_refl _,
      .inr ⟨hs.starting (.inr hmain), rfl, hmain⟩⟩
  | _ =>
    simp only at h
    split at h <;> cases h
    exact ⟨Nat.le_add_right _ _, rfl, rfl, List.prefix_refl _, .inl rfl⟩

theorem Aside.stepsToDisk_le {s t : AsyncLogging} {l : Label} (h : s.Aside t l) (n : ℕ) :
    t.stepsToDisk n ≤ s.stepsToDisk n + l.isAppend.toNat := by
  have hbuffers := h.buffers
  unfold stepsToDisk
  rw [h.swapped, h.toWrite]
  rcases h.phase with hphase | ⟨hphase, ht, -⟩
  · rw [hphase]
    split_ifs
    · exact Nat.le_add_right _ _
    · omega
  · rw [hphase, ht]
    split_ifs
    · exact Nat.le_add_right _ _
    · dsimp only
      omega

theorem Aside.stepsToExit_le {s t : AsyncLogging} {l : Label} (h : s.Aside t l)
    (hstarted : s.phase ≠ .notStarted) : t.stepsToExit ≤ s.stepsToExit + l.isAppend.toNat := by
  have hbuffers := h.buffers
  have hphase : t.phase = s.phase := h.phase.resolve_right fun hstart => hstarted hstart.1
  unfold stepsToExit
  rw [h.toWrite, hphase]
  split <;> omega

/-! ### Runs in which `running_` is set, and what follows when it is cleared -/

/-- `stop()` has not cleared `running_`. -/
structure Going (s : AsyncLogging) : Prop where
  inv : s.Inv
  exchange : s.Exchange
  live : s.crashed = false
  running : s.main = .fresh ∨ s.running = true
  phase : s.phase ≠ .exited

theorem Going.running_of_started {s : AsyncLogging} (hs : s.Going)
    (hstarted : s.phase ≠ .notStarted) : s.running = true := by
  rcases hs.running with hfresh | hrun
  · exact absurd (hs.inv.starting (.inl hfresh)) hstarted
  · exact hrun

theorem going_new : new.Going := ⟨inv_new, exchange_new, rfl, .inl rfl, by simp [new]⟩

/-- After a step of the back end there is no assertion left that can fail. -/
theorem Moves.phase_ne {s t : AsyncLogging} (h : s.Moves t) :
    t.phase ≠ .notStarted ∧ t.phase ≠ .assertRunning := by
  cases h
  all_goals
    rename_i ht _
    simp_all

theorem crashed_append {s : AsyncLogging} (hs : s.Exchange) (logline : Bytes) :
    (s.append logline).crashed = s.crashed := by
  obtain ⟨current, hcurrent⟩ := Option.isSome_iff_exists.1 hs.current
  unfold append
  rw [hcurrent]
  dsimp only
  split_ifs <;> rfl

theorem moves_of_step {s t : AsyncLogging} (hs : s.Exchange)
    (hassert : s.phase = .assertRunning → s.running = true) (h : step s .threadFunc = some t) :
    s.Moves t ∧ Frame s t := by
  have hlive := live_of_step h
  rw [step, if_neg hlive] at h
  exact ⟨moves_of_threadFunc hs hassert h, threadFunc_frame h⟩

theorem live_of_moves {s t : AsyncLogging} (ht : t.Exchange) (h : s.Moves t) :
    t.crashed = false := by
  cases hcrash : t.crashed with
  | false => rfl
  | true => exact absurd (ht.crashed hcrash) h.phase_ne.2

theorem going_step {s t : AsyncLogging} {l : Label} (hs : s.Going) (hl : l ≠ .stopStore)
    (h : step s l = some t) : t.Going := by
  have hinv := inv_step hs.inv h
  have hexchange := exchange_step hs.exchange h
  have hlive := live_of_step h
  cases l with
  | threadFunc =>
    have hassert : s.phase = .assertRunning → s.running = true :=
      fun hphase => hs.running_of_started (by simp [hphase])
    obtain ⟨hmoves, hframe⟩ := moves_of_step hs.exchange hassert h
    have hrun := hs.running_of_started hframe.started.1
    refine ⟨hinv, hexchange, live_of_moves hexchange hmoves, .inr (hframe.running.trans hrun), ?_⟩
    cases hmoves with
    | leave hstop =>
      rw [hrun] at hstop
      cases hstop
    | _ => simp_all
  | append tid logline =>
    rw [step, if_neg hlive] at h
    split_ifs at h
    cases h
    obtain ⟨-, -, -, hphase, hrun, hmain⟩ := s.buffers_append logline
    refine ⟨hinv, hexchange, (crashed_append hs.exchange logline).trans hs.live, ?_, ?_⟩
    · have hrunning := hs.running
      rw [← hmain, ← hrun] at hrunning
      exact hrunning
    · exact fun hexit => hs.phase (hphase.symm.trans hexit)
  | stopStore => exact absurd rfl hl
  | startStore =>
    rw [step, if_neg hlive] at h
    split_ifs at h
    cases h
    exact ⟨hinv, hexchange, hs.live, .inr rfl, hs.phase⟩
  | startThread =>
    rw [step, if_neg hlive] at h
    split_ifs at h with hmain
    cases h
    refine ⟨hinv, hexchange, hs.live, ?_, by simp⟩
    exact .inr (hs.running.resolve_left (by simp [hmain]))
  | stopCall =>
    rw [step, if_neg hlive] at h
    split_ifs at h with hmain
    cases h
    exact ⟨hinv, hexchange, hs.live, .inr (hs.running.resolve_left (by simp [hmain])), hs.phase⟩
  | appendReturn | stopJoin =>
    rw [step, if_neg hlive] at h
    split at h <;> cases h
    first
    | exact ⟨hinv, hexchange, hs.live, hs.running, hs.phase⟩
    | exact ⟨hinv, hexchange, hs.live, .inr (hs.running.resolve_left (by simp_all)), hs.phase⟩

/-- `running_` is cleared, and the back end has passed the assertion in front of its loop. -/
structure Leaving (s : AsyncLogging) : Prop where
  inv : s.Inv
  exchange : s.Exchange
  live : s.crashed = false
  running : s.running = false
  started : s.phase ≠ .notStarted ∧ s.phase ≠ .assertRunning

theorem leaving_step {s t : AsyncLogging} {l : Label} (hs : s.Leaving) (h : step s l = some t) :
    t.Leaving := by
  have hinv := inv_step hs.inv h
  have hexchange := exchange_step hs.exchange h
  have hlive := live_of_step h
  have hmain : s.main ≠ .fresh ∧ s.main ≠ .starting :=
    ⟨fun hmain => hs.started.1 (hs.inv.starting (.inl hmain)),
      fun hmain => hs.started.1 (hs.inv.starting (.inr hmain))⟩
  cases l with
  | threadFunc =>
    obtain ⟨hmoves, hframe⟩ :=
      moves_of_step hs.exchange (fun hphase => absurd hphase hs.started.2) h
    exact ⟨hinv, hexchange, live_of_moves hexchange hmoves, hframe.running.trans hs.running,
      hmoves.phase_ne⟩
  | append tid logline =>
    rw [step, if_neg hlive] at h
    split_ifs at h
    cases h
    obtain ⟨-, -, -, hphase, hrun, -⟩ := s.buffers_append logline
    refine ⟨hinv, hexchange, (crashed_append hs.exchange logline).trans hs.live,
      hrun.trans hs.running, ?_⟩
    show (s.append logline).phase ≠ _ ∧ (s.append logline).phase ≠ _
    rw [hphase]
    exact hs.started
  | startStore =>
    rw [step, if_neg hlive, if_neg hmain.1] at h
    cases h
  | startThread =>
    rw [step, if_neg hlive, if_neg hmain.2] at h
    cases h
  | stopStore =>
    rw [step, if_neg hlive] at h
    split_ifs at h
    cases h
    exact ⟨hinv, hexchange, hs.live, rfl, hs.started⟩
  | _ =>
    rw [step, if_neg hlive] at h
    split at h <;> cases h
    exact ⟨hinv, hexchange, hs.live, hs.running, hs.started⟩

/-- The back end can always go on, until it is done. -/
theorem isSome_threadFunc {s : AsyncLogging} (hlive : s.crashed = false)
    (hphase : s.phase ≠ .notStarted ∧ s.phase ≠ .exited) : (step s .threadFunc).isSome := by
  rw [step, if_neg (by simp [hlive]), threadFunc]
  cases h : s.phase with
  | notStarted => exact absurd h hphase.1
  | exited => exact absurd h hphase.2
  | write i =>
    dsimp only
    split <;> rfl
  | _ => rfl

/-- **`stop()` returns.**  When it has cleared `running_`, behind the assertion of the back end,
then on every schedule the back end can go on until it leaves its loop.  The step with which it does
so is among its next ones: as many as there were buffers, six more, and one for each `append` in
between.  Then the join returns. -/
theorem stop_returns {ls ms : List Label} {s t : AsyncLogging} (h : run step new ls = some s)
    (hstop : s.running = false) (hstarted : s.phase ≠ .notStarted ∧ s.phase ≠ .assertRunning)
    (hlive : s.crashed = false) (h' : run step s ms = some t) :
    (t.phase ≠ .exited → (step t .threadFunc).isSome ∧
      ms.countP Label.isBackEnd <
        s.buffers.length + s.buffersToWrite.length + 6 + ms.countP Label.isAppend) ∧
    (t.phase = .exited → t.main = .joining → (step t .stopJoin).isSome) := by
  have hinv : s.Inv := run_preserves (fun _ _ _ hs hstep => inv_step hs hstep) inv_new h
  have hexchange : s.Exchange :=
    run_preserves (fun _ _ _ hs hstep => exchange_step hs hstep) exchange_new h
  have hs : s.Leaving := ⟨hinv, hexchange, hlive, hstop, hstarted⟩
  have ht : t.Leaving := run_preserves (fun _ _ _ hs hstep => leaving_step hs hstep) hs h'
  have hcount : t.phase = .exited ∨
      t.stepsToExit + ms.countP Label.isBackEnd ≤ s.stepsToExit + ms.countP Label.isAppend := by
    refine done_or_le_of_measure (I := Leaving) (A := fun _ => True) (m := stepsToExit)
      (Q := fun u => u.phase = .exited)
      (fun _ _ _ hu _ hstep => leaving_step hu hstep) ?_ ?_ hs (fun _ _ => trivial) h'
    · intro u l v hu _ hexit hstep
      cases hl : l.isBackEnd with
      | false =>
        have haside := aside_of_step hu.inv hl hstep
        rcases haside.phase with hphase | ⟨hphase, -, -⟩
        · exact hphase.trans hexit
        · exact absurd hphase hu.started.1
      | true =>
        cases l <;> cases hl
        obtain ⟨-, hframe⟩ := moves_of_step hu.exchange (fun hp => absurd hp hu.started.2) hstep
        exact absurd hexit hframe.started.2
    · intro u l v hu _ _ hstep
      refine .inr ?_
      cases hl : l.isBackEnd with
      | false => exact (aside_of_step hu.inv hl hstep).stepsToExit_le hu.started.1
      | true =>
        cases l <;> cases hl
        obtain ⟨hmoves, -⟩ := moves_of_step hu.exchange (fun hp => absurd hp hu.started.2) hstep
        exact stepsToExit_of_moves hu.running hu.started.2 hmoves
  refine ⟨fun hexit => ⟨isSome_threadFunc ht.live ⟨ht.started.1, hexit⟩, ?_⟩, fun hexit hjoin => ?_⟩
  · have hle := hcount.resolve_left hexit
    have hbound := s.stepsToExit_le
    have hpos := stepsToExit_pos ht.started.1 ht.started.2 hexit
    omega
  · rw [step, if_neg (by simp [ht.live]), if_pos ⟨hjoin, hexit⟩]
    rfl

/-- The back end is in its loop with one line to write, and `stop()` has cleared `running_`. -/
def oneLine : List Label :=
  [.startStore, .startThread, .threadFunc, .append 1 [97, 10], .threadFunc, .stopCall, .stopStore]

theorem stop_returns_one :
    ∃ s t, run step new oneLine = some s ∧ run step s (List.replicate 6 .threadFunc) = some t ∧
      t.phase = .exited ∧ (step t .stopJoin).isSome := by
  have hrun : (run step new oneLine).map (fun s => (s.running, s.phase, s.crashed)) =
      some (false, .lock, false) := by decide
  obtain ⟨s, hs, hstate⟩ := Option.map_eq_some_iff.1 hrun
  simp only [Prod.mk.injEq] at hstate
  have hrest : ((run step new oneLine).bind fun s =>
      (run step s (List.replicate 6 .threadFunc)).map fun t => (t.phase, t.main)) =
        some (.exited, .joining) := by decide
  rw [hs, Option.bind_some] at hrest
  obtain ⟨t, ht, hend⟩ := Option.map_eq_some_iff.1 hrest
  simp only [Prod.mk.injEq] at hend
  have hreturns := stop_returns hs hstate.1 (by simp [hstate.2.1]) hstate.2.2 ht
  exact ⟨s, t, hs, ht, hend.1, hreturns.2 hend.1 hend.2⟩

end AsyncLogging

namespace LogPipeline

open AsyncLogging (stream)

/-! ### The disk only grows -/

theorem contents_append (f : FileUtil) (data : Bytes) (now : ℤ) :
    (f.append data now).contents = f.contents ++ data := by
  simp [FileUtil.contents]

theorem disk_of_file {s : LogPipeline} {output : LogFile} {f : FileUtil}
    (houtput : s.output = some output) (hfile : output.file = some f) :
    s.disk = (output.old.map FileUtil.contents).flatten ++ f.contents.take s.flushed := by
  rw [disk, houtput]
  dsimp only
  rw [hfile]

/-- What a call of `append` does to the file and to the number of flushed bytes. -/
theorem append_cases {s t : LogPipeline} {data : Bytes} {l : Label}
    (h : s.append data l = some t) :
    ∃ output f next, s.output = some output ∧ output.file = some f ∧ t.output = some next ∧
      ((next.old = output.old ∧ next.file = some (f.append data l.now) ∧ s.flushed ≤ t.flushed) ∨
        (next.old = output.old ++ [f.append data l.now] ∧
          ∃ now, next.file = some { opened := now })) := by
  obtain ⟨output, houtput, h⟩ := Option.bind_eq_some_iff.1 h
  obtain ⟨next, hnext, h⟩ := Option.bind_eq_some_iff.1 h
  obtain ⟨f, hf, hcases⟩ := LogFile.step_cases hnext
  split_ifs at h with hrolled hflushed
  · cases h
    refine ⟨output, f, next, houtput, hf, rfl, .inr (hcases.resolve_left fun hkept => ?_)⟩
    rw [hkept.1] at hrolled
    exact lt_irrefl _ hrolled
  · cases h
    refine ⟨output, f, next, houtput, hf, rfl, .inl ?_⟩
    rcases hcases with ⟨hold, hfile⟩ | ⟨hold, -⟩
    · exact ⟨hold, hfile, hflushed.1⟩
    · rw [hold, List.length_append] at hrolled
      exact absurd (Nat.lt_succ_self _) hrolled

theorem disk_append {s t : LogPipeline} {data : Bytes} {l : Label} (h : s.append data l = some t) :
    s.disk <+: t.disk := by
  obtain ⟨output, f, next, houtput, hf, hnext, ⟨hold, hfile, hle⟩ | ⟨hold, now, hfile⟩⟩ :=
    append_cases h
  · rw [disk_of_file houtput hf, disk_of_file hnext hfile, hold, contents_append]
    refine (List.prefix_append_right_inj _).2 ?_
    have hmore : f.contents.take s.flushed <+: (f.contents ++ data).take s.flushed := by
      rw [List.take_append]
      exact List.prefix_append _ _
    exact hmore.trans (List.take_prefix_take_left hle)
  · rw [disk_of_file houtput hf, disk_of_file hnext hfile, hold]
    -- the file is closed, and all of it is on disk
    have hall : f.contents.take s.flushed <+: f.contents ++ data :=
      (List.take_prefix _ _).trans (List.prefix_append _ _)
    simpa [contents_append, FileUtil.contents] using hall

theorem disk_flush {rollSize : ℤ} {s : LogPipeline} (hs : Filed rollSize s) :
    s.disk <+: s.flush.disk := by
  cases houtput : s.output with
  | none => simp [disk, houtput]
  | some output =>
    cases hfile : output.file with
    | none => simp [disk, flush, houtput, hfile]
    | some f =>
      have hnext : s.flush.output = some output := (output_flush s).trans houtput
      rw [disk_of_file houtput hfile, disk_of_file hnext hfile, flushed_flush houtput]
      refine (List.prefix_append_right_inj _).2 (List.take_prefix_take_left ?_)
      exact hs.flushed_le output houtput

/-- No step takes anything from the disk. -/
theorem disk_step {rollSize : ℤ} {s t : LogPipeline} {l : Label} (hs : Filed rollSize s)
    (h : step s l = some t) : s.disk <+: t.disk := by
  obtain ⟨log, -, h⟩ := Option.bind_eq_some_iff.1 h
  have hlog : ∀ u : LogPipeline, ({ u with log := log } : LogPipeline).disk = u.disk := fun _ => rfl
  cases hthread : l.thread with
  | threadFunc =>
    simp only [hthread] at h
    obtain ⟨u, hu, rfl⟩ := Option.map_eq_some_iff.1 h
    rw [hlog]
    unfold stepOutput at hu
    split at hu
    · rename_i hphase
      have hnothing : s.disk = [] := by rw [disk, hs.unopened (.inr hphase)]
      rw [hnothing]
      exact List.nil_prefix
    · cases hu
      split_ifs
      · exact List.prefix_refl _
      · exact disk_flush hs
    · split at hu
      · exact disk_append hu
      · cases hu
        exact List.prefix_refl _
    · cases hu
      exact disk_flush hs
    · cases hu
      exact List.prefix_refl _
  | _ =>
    simp only [hthread, Option.some.injEq] at h
    subst h
    rw [hlog]

/-! ### The back end goes on -/

/-- The back end has a file to write to. -/
def Opened (s : LogPipeline) : Prop :=
  ∃ output f, s.output = some output ∧ output.file = some f

theorem opened_open_ (s : LogPipeline) {now : ℤ} (hnow : 0 < now) : (s.open_ now).Opened := by
  rcases (LogFile.empty s.rollSize 0 1024 now).rollFile_cases now with ⟨-, hfile, -⟩ | ⟨hle, -⟩
  · exact ⟨_, _, rfl, hfile⟩
  · exact absurd hnow (not_lt.2 hle)

theorem Opened.flush {s : LogPipeline} (hs : s.Opened) : s.flush.Opened := by
  obtain ⟨output, f, houtput, hfile⟩ := hs
  exact ⟨output, f, (output_flush s).trans houtput, hfile⟩

theorem opened_stepOutput {s u : LogPipeline} {l : Label} (hnow : 0 < l.now)
    (hs : s.log.phase = .assertRunning ∧ s.log.running = true ∨ s.Opened)
    (h : s.stepOutput l = some u) : u.Opened := by
  unfold stepOutput at h
  rcases hs with ⟨hphase, hrun⟩ | hs
  · simp only [hphase, hrun, if_true, Option.some.injEq] at h
    subst h
    exact s.opened_open_ hnow
  · split at h
    · cases h
      split_ifs
      · exact s.opened_open_ hnow
      · exact hs
    · cases h
      split_ifs
      · exact hs
      · exact hs.flush
    · split at h
      · obtain ⟨_, f, next, -, -, hnext, ⟨-, hfile, -⟩ | ⟨-, now, hfile⟩⟩ := append_cases h
        · exact ⟨next, _, hnext, hfile⟩
        · exact ⟨next, _, hnext, hfile⟩
      · cases h
        exact hs
    · cases h
      exact hs.flush
    · cases h
      exact hs

/-- The runs in which `stop()` has not cleared `running_`, behind the appending of `lines`. -/
structure Serving (rollSize : ℤ) (lines : List Bytes) (s : LogPipeline) : Prop where
  reach : ∃ ls, run step (new rollSize) ls = some s
  going : s.log.Going
  lines : lines <+: s.log.lines
  opened : s.log.phase = .notStarted ∨ s.log.phase = .assertRunning ∨ s.Opened

theorem serving_new (rollSize : ℤ) : Serving rollSize [] (new rollSize) :=
  ⟨⟨[], rfl⟩, AsyncLogging.going_new, List.nil_prefix, .inl rfl⟩

theorem serving_step {rollSize : ℤ} {lines : List Bytes} {s t : LogPipeline} {l : Label}
    (hs : Serving rollSize lines s) (hl : l.thread ≠ .stopStore ∧ 0 < l.now)
    (h : step s l = some t) : Serving rollSize lines t := by
  obtain ⟨ls, hls⟩ := hs.reach
  have hreach : run step (new rollSize) (ls ++ [l]) = some t :=
    run_concat_eq_some.2 ⟨s, hls, h⟩
  have hgoing := AsyncLogging.going_step hs.going hl.1 (step_log h)
  obtain ⟨log, hlog, h⟩ := Option.bind_eq_some_iff.1 h
  cases hthread : l.thread with
  | threadFunc =>
    simp only [hthread] at h
    obtain ⟨u, hu, rfl⟩ := Option.map_eq_some_iff.1 h
    rw [hthread] at hlog
    obtain ⟨-, hframe⟩ := AsyncLogging.moves_of_step hs.going.exchange
      (fun hphase => hs.going.running_of_started (by simp [hphase])) hlog
    have hrun := hs.going.running_of_started hframe.started.1
    have hready : s.log.phase = .assertRunning ∧ s.log.running = true ∨ s.Opened := by
      rcases hs.opened with hphase | hphase | hopened
      · exact absurd hphase hframe.started.1
      · exact .inl ⟨hphase, hrun⟩
      · exact .inr hopened
    have hopened : u.Opened := opened_stepOutput hl.2 hready hu
    exact ⟨⟨_, hreach⟩, hgoing, hframe.lines.symm ▸ hs.lines, .inr (.inr hopened)⟩
  | _ =>
    simp only [hthread, Option.some.injEq] at h
    subst h
    rw [hthread] at hlog
    have haside := AsyncLogging.aside_of_step hs.going.inv rfl hlog
    refine ⟨⟨_, hreach⟩, hgoing, hs.lines.trans haside.lines, ?_⟩
    rcases haside.phase with hphase | ⟨-, hphase, -⟩
    · rw [hphase]
      exact hs.opened
    · exact .inr (.inl hphase)

/-- A file that is open takes a buffer, at the latest reading of the clock. -/
theorem exists_append {rollSize : ℤ} {s : LogPipeline} (hs : Filed rollSize s) (hopen : s.Opened)
    (data : Bytes) : ∃ l, l.thread = .threadFunc ∧ 0 < l.now ∧ (s.append data l).isSome := by
  obtain ⟨output, f, houtput, hfile⟩ := hopen
  set now := max 1 output.clock with hnow
  have hclock : output.clock ≤ now ∧ now ≤ now := ⟨le_max_right _ _, le_rfl⟩
  have hsome : (output.step ⟨data, now, now⟩).isSome := by
    simp only [LogFile.step, hclock, LogFile.appendInLock, hfile]
    rfl
  obtain ⟨next, hnext⟩ := Option.isSome_iff_exists.1 hsome
  refine ⟨⟨.threadFunc, now, now, currentLength next⟩, rfl, ?_, ?_⟩
  · exact zero_lt_one.trans_le (le_max_left _ _)
  · have hle := hs.flushed_le output houtput
    rw [append, houtput]
    simp only [Option.bind_eq_bind, Option.bind_some, hnext]
    obtain ⟨_, ⟨⟩, ⟨-, hgrown⟩ | ⟨hold, -⟩⟩ := hfile ▸ LogFile.step_cases hnext
    · have hroom : s.flushed ≤ currentLength next := by
        rw [currentLength_of_file hfile] at hle
        rw [currentLength_of_file hgrown, contents_append, List.length_append]
        exact hle.trans (Nat.le_add_right _ _)
      split_ifs with hrolled hflushed
      · rfl
      · rfl
      · exact absurd ⟨hroom, le_rfl⟩ hflushed
    · rw [if_pos (by simp [hold])]
      rfl

/-- Whatever the back end is at, there is a reading of the clock with which it goes on. -/
theorem exists_step {rollSize : ℤ} {lines : List Bytes} {s : LogPipeline}
    (hs : Serving rollSize lines s) (hphase : s.log.phase ≠ .notStarted) :
    ∃ l, l.thread = .threadFunc ∧ 0 < l.now ∧ (step s l).isSome := by
  obtain ⟨ls, hls⟩ := hs.reach
  obtain ⟨hfiled, -⟩ := filed_run hls
  have hlog := AsyncLogging.isSome_threadFunc hs.going.live ⟨hphase, hs.going.phase⟩
  obtain ⟨log, hlog⟩ := Option.isSome_iff_exists.1 hlog
  have hgoes : ∀ l : Label, l.thread = .threadFunc → (s.stepOutput l).isSome →
      (step s l).isSome := by
    intro l hl hout
    obtain ⟨u, hu⟩ := Option.isSome_iff_exists.1 hout
    rw [step, hl, hlog, Option.bind_some, hu]
    rfl
  by_cases hwrite : ∃ i b, s.log.phase = .write i ∧ s.log.buffersToWrite[i]? = some (some b)
  · obtain ⟨i, b, hphase', hb⟩ := hwrite
    have hopen : s.Opened := by simpa [hphase'] using hs.opened
    obtain ⟨l, hl, hnow, happ⟩ := exists_append hfiled hopen b.data
    refine ⟨l, hl, hnow, hgoes l hl ?_⟩
    rw [stepOutput, hphase']
    simp only [hb]
    exact happ
  · refine ⟨⟨.threadFunc, 1, 1, 0⟩, rfl, zero_lt_one, hgoes _ rfl ?_⟩
    unfold stepOutput
    split
    · rfl
    · rfl
    · rename_i i hphase'
      split
      · rename_i b hb
        exact absurd ⟨i, b, hphase', hb⟩ hwrite
      · rfl
    · rfl
    · rfl

/-! ### Delivery -/

theorem disk_of_flushed {rollSize : ℤ} {lines : List Bytes} {s : LogPipeline}
    (hs : Serving rollSize lines s) (h : s.log.Flushed lines.length) : stream lines <+: s.disk := by
  obtain ⟨ls, hls⟩ := hs.reach
  obtain ⟨rest, hrest⟩ := hs.lines
  rw [disk_of_idle hls h.2, ← hrest, List.take_append, List.take_of_length_le h.1,
    AsyncLogging.stream_append]
  exact List.prefix_append _ _

/-- **Delivery.**  While `stop()` has not cleared `running_`, and with a positive clock, the back
end can go on from every state, and on every schedule the lines that were appended before are on
disk when it has made as many steps as there were buffers in its two lists, nine more, and one for
each `append` in between. -/
theorem lines_delivered {rollSize : ℤ} {ls ms : List Label} {s t : LogPipeline}
    (h : run step (new rollSize) ls = some s) (h' : run step s ms = some t)
    (hgo : ∀ l ∈ ls ++ ms, l.thread ≠ .stopStore ∧ 0 < l.now) :
    (t.log.phase ≠ .notStarted → ∃ l, l.thread = .threadFunc ∧ 0 < l.now ∧ (step t l).isSome) ∧
    (s.log.buffers.length + s.log.buffersToWrite.length + 8 +
        ms.countP (fun l => l.thread.isAppend) < ms.countP (fun l => l.thread.isBackEnd) →
      stream s.log.lines <+: t.disk) := by
  have hbefore : Serving rollSize [] s :=
    run_preserves_of_labels (fun _ _ _ hu hl hstep => serving_step hu hl hstep)
      (serving_new rollSize) (fun l hl => hgo l (List.mem_append_left _ hl)) h
  have hs : Serving rollSize s.log.lines s :=
    ⟨hbefore.reach, hbefore.going, List.prefix_refl _, hbefore.opened⟩
  have hms : ∀ l ∈ ms, l.thread ≠ .stopStore ∧ 0 < l.now :=
    fun l hl => hgo l (List.mem_append_right _ hl)
  have ht : Serving rollSize s.log.lines t :=
    run_preserves_of_labels (fun _ _ _ hu hl hstep => serving_step hu hl hstep) hs hms h'
  refine ⟨exists_step ht, fun hmany => ?_⟩
  have hcount : stream s.log.lines <+: t.disk ∨
      t.log.stepsToDisk s.log.lines.length + ms.countP (fun l => l.thread.isBackEnd) ≤
        s.log.stepsToDisk s.log.lines.length + ms.countP (fun l => l.thread.isAppend) := by
    refine done_or_le_of_measure (I := Serving rollSize s.log.lines)
      (A := fun l => l.thread ≠ .stopStore ∧ 0 < l.now)
      (m := fun u => u.log.stepsToDisk s.log.lines.length)
      (Q := fun u => stream s.log.lines <+: u.disk)
      (fun _ _ _ hu hl hstep => serving_step hu hl hstep) ?_ ?_ hs hms h'
    · rintro u l v ⟨⟨us, hus⟩, -, -, -⟩ - hdisk hstep
      exact hdisk.trans (disk_step (filed_run hus).1 hstep)
    · intro u l v hu hl hwait hstep
      have hv := serving_step hu hl hstep
      have hlog := step_log hstep
      cases hback : l.thread.isBackEnd with
      | false => exact .inr ((AsyncLogging.aside_of_step hu.going.inv hback hlog).stepsToDisk_le _)
      | true =>
        cases hthread : l.thread <;> rw [hthread] at hback <;> cases hback
        rw [hthread] at hlog
        obtain ⟨hmoves, hframe⟩ := AsyncLogging.moves_of_step hu.going.exchange
          (fun hphase => hu.going.running_of_started (by simp [hphase])) hlog
        have hrun := hu.going.running_of_started hframe.started.1
        rcases AsyncLogging.stepsToDisk_of_moves hu.lines.length_le hrun
          (fun hflushed => hwait (disk_of_flushed hu hflushed)) hmoves with hflushed | hle
        · exact .inl (disk_of_flushed hv hflushed)
        · exact .inr hle
  refine hcount.resolve_right fun hle => ?_
  have hbound := s.log.stepsToDisk_le s.log.lines.length
  omega

/-- Behind the line in the front end, the back end makes ten steps. -/
def tenSteps : List Label := (List.range 10).map fun i => ⟨.threadFunc, 200 + i, 200 + i, 0⟩

theorem lines_delivered_ten :
    ∃ s t, run step (new 1) waitingBehindOne = some s ∧ run step s tenSteps = some t ∧
      stream s.log.lines = [97, 10, 98, 10] ∧ stream s.log.lines <+: t.disk := by
  have hrun : (run step (new 1) waitingBehindOne).map
      (fun s => (s.log.buffers.length, s.log.buffersToWrite.length, stream s.log.lines)) =
        some (0, 0, [97, 10, 98, 10]) := by decide
  obtain ⟨s, hs, hstate⟩ := Option.map_eq_some_iff.1 hrun
  simp only [Prod.mk.injEq] at hstate
  have hrest : ((run step (new 1) waitingBehindOne).bind fun s =>
      (run step s tenSteps)).isSome := by decide
  rw [hs, Option.bind_some] at hrest
  obtain ⟨t, ht⟩ := Option.isSome_iff_exists.1 hrest
  refine ⟨s, t, hs, ht, hstate.2.2, (lines_delivered hs ht (by decide)).2 ?_⟩
  rw [hstate.1, hstate.2.1]
  decide

end LogPipeline

end TinyNetwork
