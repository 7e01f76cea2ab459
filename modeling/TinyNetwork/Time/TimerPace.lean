import TinyNetwork.Time.TimerArming
import Mathlib.Data.List.Chain
import Mathlib.Tactic.Linarith

/-!
# The pace of a timer

`runAt`, `runAfter` and `runEvery` of `EventLoop` (src/net/EventLoop.h) hand timers to the queue.
`timers_paced`: from the moment a timer is added to the moment its address is used again, its first
call does not come before its expiration, and each later one not before its interval has passed
since the call before it; a timer that does not repeat is called at most once.  This is about all
the expiries of a run together, with any timers added in between, as long as `gettimeofday` is not
set back.
-/

namespace TinyNetwork

open Lts

/-- `Timer(cb, when, interval)`. -/
def Timer.make (when : TimeStamp) (interval : ℤ) : Timer where
  expiration := when
  interval := interval
  repeat_ := 0 < interval

/-- One interval before the expiration. -/
def Timer.origin (t : Timer) : TimeStamp := t.expiration - t.interval

namespace EventLoop

/-- The timer of `runAt(time, cb)`. -/
def runAt (time : TimeStamp) : Timer := .make time 0

/-- The timer of `runAfter(delay, cb)`, when the clock reads `now`. -/
def runAfter (now : TimeStamp) (delay : ℤ) : Timer := runAt (addTime now delay)

/-- The timer of `runEvery(interval, cb)`, when the clock reads `now`. -/
def runEvery (now : TimeStamp) (interval : ℤ) : Timer := .make (addTime now interval) interval

end EventLoop

namespace TimerQueue

/-- The clock when the callback of the timer is called. -/
def callOf (timer : ℕ) (s : TimerQueue) : Label → List TimeStamp
  | .run =>
    match s.phase with
    | .calling expired called =>
      if expired[called]?.map Entry.timer = some timer then [s.clock] else []
    | _ => []
  | _ => []

theorem callOf_of_ne_run {timer : ℕ} {s : TimerQueue} {l : Label} (h : l ≠ .run) :
    callOf timer s l = [] := by
  cases l with
  | run => exact absurd rfl h
  | _ => rfl

/-- The times at which the timer is called in a run. -/
def callTimes (timer : ℕ) (s : TimerQueue) (ls : List Label) : List TimeStamp :=
  emitted step (callOf timer) s ls

/-! ### The clock -/

/-- The clock does not go back. -/
theorem clock_le_of_step {s t : TimerQueue} {l : Label} (h : step s l = some t) :
    s.clock ≤ t.clock := by
  cases l with
  | tick now =>
    simp only [step] at h
    split_ifs at h with hle
    cases h
    exact hle
  | addTimerInLoop timer contents delay =>
    simp only [step] at h
    split_ifs at h
    cases h
    unfold TimerQueue.addTimerInLoop
    split_ifs
    · exact le_add_of_nonneg_right (Int.natCast_nonneg delay)
    · exact le_rfl
  | readTimerfd =>
    simp only [step] at h
    split at h
    · cases h
      obtain ⟨timerfd, hread⟩ := s.readTimerfd_eq
      rw [hread]
      exact le_rfl
    · cases h
  | restart =>
    simp only [step] at h
    split at h
    · cases h
      unfold TimerQueue.restart
      split_ifs <;> exact le_rfl
    · cases h
  | endReset delay =>
    simp only [step] at h
    split at h
    · cases h
      show s.clock ≤ (s.endReset delay).clock
      unfold TimerQueue.endReset
      split
      · exact le_rfl
      · exact le_add_of_nonneg_right (Int.natCast_nonneg delay)
    · cases h
  | expire | run | endCalling =>
    simp only [step] at h
    split at h
    · split_ifs at h
      cases h
      exact le_rfl
    · cases h
  | handleRead =>
    simp only [step] at h
    split_ifs at h
    cases h
    exact le_rfl

/-! ### The entries that are held -/

/-- The held entries whose timers are still to be called. -/
def Phase.waiting : Phase → List Entry
  | .calling expired called => expired.drop called
  | _ => []

/-- The entries whose timers were not called since they were entered. -/
def uncalled (s : TimerQueue) : List Entry := s.timers.toList ++ s.phase.waiting

/-- The held entries whose timers were called. -/
def Phase.called : Phase → List Entry
  | .calling expired called => expired.take called
  | .resetting expired => expired
  | _ => []

/-- What is held was due when the clock was read. -/
structure Timely (s : TimerQueue) : Prop extends s.Keyed where
  reading : ∀ now, s.phase = .reading now → now ≤ s.clock
  held : ∀ e ∈ s.phase.held, e.when ≤ s.clock

theorem timely_construct (clock : TimeStamp) (memory : ℕ → Timer) :
    (construct clock memory).Timely :=
  { keyed_construct clock memory with
    reading := fun _ h => by cases h
    held := fun _ h => by cases h }

/-- An entry in front of the sentry is due. -/
theorem when_le_of_mem_below {timers : OrderedSet Entry} {now : TimeStamp} {e : Entry}
    (h : e ∈ timers.below (sentry now)) : e.when ≤ now := by
  rw [timers.below_eq_filter] at h
  have hlt : e < sentry now := of_decide_eq_true (List.mem_filter.1 h).2
  rcases Prod.Lex.lt_iff.1 hlt with hlt | ⟨heq, -⟩
  · exact hlt.le
  · exact heq.le

theorem timely_step {s t : TimerQueue} {l : Label} (hs : s.Timely) (h : step s l = some t) :
    t.Timely := by
  have hclock := clock_le_of_step h
  have hstep := stepTo_of_step h
  clear h
  have hheld : ∀ es : List Entry, (∀ e ∈ es, e ∈ s.phase.held) → ∀ e ∈ es, e.when ≤ t.clock :=
    fun es hes e he => (hs.held e (hes e he)).trans hclock
  refine { keyed_stepTo hs.toKeyed hstep with reading := ?_, held := ?_ }
  · intro now hphase
    cases hstep with
    | tick _ h | expire h | addTimerInLoop _ _ _ _ _ h =>
      rw [h.phase] at hphase
      exact (hs.reading now hphase).trans hclock
    | handleRead _ h =>
      rw [h.phase] at hphase
      cases hphase
      exact hclock
    | readTimerfd _ _ h | run _ _ _ _ h | endCalling _ _ h | restart _ _ _ _ h
      | delete _ _ _ _ h | endReset _ _ h =>
      rw [h.phase] at hphase
      cases hphase
  · cases hstep with
    | tick _ h | expire h | addTimerInLoop _ _ _ _ _ h =>
      rw [h.phase]
      exact hheld _ fun _ he => he
    | handleRead _ h | endReset _ _ h =>
      rw [h.phase]
      intro e he
      cases he
    | readTimerfd now hphase h =>
      rw [h.phase]
      intro e he
      exact (when_le_of_mem_below he).trans ((hs.reading now hphase).trans hclock)
    | run _ _ hphase _ h | endCalling _ hphase h =>
      rw [h.phase]
      exact hheld _ fun e he => by rw [hphase]; exact he
    | restart _ _ hphase _ h | delete _ _ hphase _ h =>
      rw [h.phase]
      exact hheld _ fun e he => by rw [hphase]; exact List.mem_cons_of_mem _ he

/-! ### The invariant of one timer -/

/-- Where a timer stands that was added as `contents` and has been called at `calls`. -/
structure Paced (timer : ℕ) (contents : Timer) (calls : List TimeStamp) (s : TimerQueue) : Prop where
  interval : (s.memory timer).interval = contents.interval
  repeat_ : (s.memory timer).repeat_ = contents.repeat_
  chain : (contents.origin :: calls).IsChain
    fun a b => a + contents.interval ≤ b
  le_clock : ∀ time ∈ calls, time ≤ s.clock
  waiting : ∀ e ∈ s.uncalled, e.timer = timer →
    (∀ last ∈ (contents.origin :: calls).getLast?,
      last + contents.interval ≤ e.when) ∧ (contents.repeat_ = false → calls = [])
  called : ∀ e ∈ s.phase.called, e.timer = timer → calls ≠ []
  once : contents.repeat_ = false → calls.length ≤ 1

section

variable {timer : ℕ} {contents : Timer} {calls : List TimeStamp} {s t : TimerQueue}

/-- Nothing happens to the timer. -/
theorem Paced.mono (hs : Paced timer contents calls s) (hmemory : t.memory timer = s.memory timer)
    (hclock : s.clock ≤ t.clock)
    (huncalled : ∀ e ∈ t.uncalled, e.timer = timer → e ∈ s.uncalled)
    (hcalled : ∀ e ∈ t.phase.called, e.timer = timer → e ∈ s.phase.called) :
    Paced timer contents calls t where
  interval := by rw [hmemory, hs.interval]
  repeat_ := by rw [hmemory, hs.repeat_]
  chain := hs.chain
  le_clock time h := (hs.le_clock time h).trans hclock
  waiting e he htimer := hs.waiting e (huncalled e he htimer) htimer
  called e he htimer := hs.called e (hcalled e he htimer) htimer
  once := hs.once

theorem uncalled_eq {timers : OrderedSet Entry} {memory : ℕ → Timer} {phase : Phase}
    (h : t.Holds timers memory phase) :
    t.uncalled = timers.toList ++ phase.waiting := by
  rw [uncalled, h.timers, h.phase]

/-- An entry of the timer that is entered anew is not one of another timer. -/
theorem mem_of_mem_insert {timers : OrderedSet Entry} {when : TimeStamp} {other : ℕ} {e : Entry}
    (h : e ∈ (timers.insert (.make when other)).toList) (htimer : e.timer = timer)
    (hne : other ≠ timer) : e ∈ timers.toList := by
  rcases OrderedSet.mem_insert.1 h with rfl | h
  · exact absurd htimer hne
  · exact h

/-- A call of the timer. -/
theorem Paced.call (hs : Paced timer contents calls s) (htimely : s.Timely) {expired : List Entry}
    {called : ℕ} (hphase : s.phase = .calling expired called) (hlt : called < expired.length)
    (h : t.Holds s.timers s.memory (.calling expired (called + 1))) (hclock : t.clock = s.clock)
    (htimer : expired[called].timer = timer) :
    Paced timer contents (calls ++ [s.clock]) t := by
  have hdrop : expired.drop called = expired[called] :: expired.drop (called + 1) :=
    List.drop_eq_getElem_cons hlt
  have hmem : expired[called] ∈ s.uncalled := by
    rw [uncalled, hphase, Phase.waiting, hdrop]
    exact List.mem_append_right _ List.mem_cons_self
  obtain ⟨hlast, honce⟩ := hs.waiting _ hmem htimer
  have hdue : expired[called].when ≤ s.clock :=
    htimely.held _ (by rw [hphase]; exact List.getElem_mem hlt)
  refine ⟨by rw [h.memory, hs.interval], by rw [h.memory, hs.repeat_], ?_, ?_, ?_, ?_, ?_⟩
  · rw [← List.cons_append, List.isChain_append]
    refine ⟨hs.chain, .singleton _, fun last hl time ht => ?_⟩
    cases ht
    exact (hlast last hl).trans hdue
  · intro time ht
    rw [hclock]
    rcases List.mem_append.1 ht with ht | ht
    · exact hs.le_clock time ht
    · exact (List.mem_singleton.1 ht).le
  · -- no other entry is one of the timer
    intro e he hetimer
    exfalso
    rw [uncalled_eq h] at he
    have hnodup := htimely.alive
    rw [alive, hphase] at hnodup
    have hsplit : s.timers.toList ++ (Phase.calling expired called).held =
        (s.timers.toList ++ expired.take called) ++
          expired[called] :: expired.drop (called + 1) := by
      rw [List.append_assoc, ← hdrop, List.take_append_drop]
      rfl
    rw [hsplit, List.map_append, List.map_cons, List.perm_middle.nodup_iff,
      List.nodup_cons] at hnodup
    refine hnodup.1 ?_
    rw [← List.map_append, htimer, ← hetimer]
    refine List.mem_map_of_mem ?_
    rcases List.mem_append.1 he with he | he
    · exact List.mem_append_left _ (List.mem_append_left _ he)
    · exact List.mem_append_right _ he
  · exact fun _ _ _ => List.append_ne_nil_of_right_ne_nil _ (List.cons_ne_nil _ _)
  · intro hone
    rw [honce hone]
    exact le_rfl

/-- A timer that was called is entered again, an interval behind the clock. -/
theorem Paced.restart (hs : Paced timer contents calls s) {e : Entry} {rest : List Entry}
    (hphase : s.phase = .resetting (e :: rest)) (hrepeat : (s.memory e.timer).repeat_ = true)
    (h : t.Holds (s.timers.insert (.make (addTime s.clock (s.memory e.timer).interval) e.timer))
      (Function.update s.memory e.timer ((s.memory e.timer).restart s.clock)) (.resetting rest))
    (hclock : s.clock ≤ t.clock) : Paced timer contents calls t := by
  have hcalled : ∀ f ∈ t.phase.called, f ∈ s.phase.called := by
    intro f hf
    rw [h.phase] at hf
    rw [hphase]
    exact List.mem_cons_of_mem _ hf
  by_cases htimer : e.timer = timer
  · subst htimer
    have hmemory : t.memory e.timer = (s.memory e.timer).restart s.clock := by
      rw [h.memory, Function.update_self]
    have hne : calls ≠ [] := hs.called e (by rw [hphase]; exact List.mem_cons_self) rfl
    have hcontents : contents.repeat_ = true := hs.repeat_ ▸ hrepeat
    refine ⟨?_, ?_, hs.chain, fun time ht => (hs.le_clock time ht).trans hclock, ?_,
      fun f hf hftimer => hs.called f (hcalled f hf) hftimer, hs.once⟩
    · rw [hmemory, Timer.restart, if_pos hrepeat, hs.interval]
    · rw [hmemory, Timer.restart, if_pos hrepeat, hs.repeat_]
    · intro f hf hftimer
      refine ⟨?_, fun hone => by simp [hcontents] at hone⟩
      rw [uncalled_eq h] at hf
      rcases OrderedSet.mem_insert.1 ((List.mem_append.1 hf).resolve_right (by simp [Phase.waiting]))
        with rfl | hf
      · intro last hlast
        have hmem : last ∈ calls := by
          rw [List.getLast?_cons, Option.mem_some_iff] at hlast
          rw [List.getLast?_eq_some_getLast hne, Option.getD_some] at hlast
          exact hlast ▸ List.getLast_mem hne
        rw [Entry.when_make, addTime, hs.interval]
        exact Int.add_le_add_right (hs.le_clock last hmem) _
      · exact (hs.waiting f (List.mem_append_left _ hf) hftimer).1
  · refine hs.mono (by rw [h.memory, Function.update_of_ne (Ne.symm htimer)]) hclock
      (fun f hf hftimer => ?_) fun f hf _ => hcalled f hf
    rw [uncalled_eq h] at hf
    have hin := (List.mem_append.1 hf).resolve_right (by simp [Phase.waiting])
    exact List.mem_append_left _ (mem_of_mem_insert hin hftimer htimer)

/-- What a step that is no call does to a timer that it does not add again. -/
theorem paced_of_ne_run {l : Label} (hs : Paced timer contents calls s)
    (honce : ∀ contents delay, l ≠ .addTimerInLoop timer contents delay) (hne : l ≠ .run)
    (hclock : s.clock ≤ t.clock) (h : StepTo s t l) : Paced timer contents calls t := by
  cases h with
  | run => exact absurd rfl hne
  | tick _ h | expire h =>
    refine hs.mono (by rw [h.memory]) hclock (fun e he _ => ?_) fun e he _ => ?_
    · rwa [uncalled_eq h] at he
    · rwa [h.phase] at he
  | addTimerInLoop other added delay houtside hnew h =>
    have hother : other ≠ timer := fun heq => honce added delay (heq ▸ rfl)
    refine hs.mono (by rw [h.memory, Function.update_of_ne hother.symm]) hclock
      (fun e he hetimer => ?_) fun e he _ => ?_
    · rw [uncalled_eq h] at he
      rcases List.mem_append.1 he with he | he
      · exact List.mem_append_left _ (mem_of_mem_insert he hetimer hother)
      · exact List.mem_append_right _ he
    · rwa [h.phase] at he
  | handleRead hphase h =>
    refine hs.mono (by rw [h.memory]) hclock (fun e he _ => ?_) fun e he _ => ?_
    · rw [uncalled_eq h] at he
      rwa [uncalled, hphase]
    · rw [h.phase] at he
      cases he
  | readTimerfd now hphase h =>
    refine hs.mono (by rw [h.memory]) hclock (fun e he _ => ?_) fun e he _ => ?_
    · rw [uncalled_eq h] at he
      rw [uncalled, hphase, ← s.timers.below_append_above (sentry now)]
      rcases List.mem_append.1 he with he | he
      · exact List.mem_append_left _ (List.mem_append_right _ he)
      · exact List.mem_append_left _ (List.mem_append_left _ he)
    · rw [h.phase] at he
      cases he
  | endCalling expired hphase h =>
    refine hs.mono (by rw [h.memory]) hclock (fun e he _ => ?_) fun e he _ => ?_
    · rw [uncalled_eq h] at he
      rw [uncalled]
      exact List.mem_append_left _ ((List.mem_append.1 he).resolve_right (by simp [Phase.waiting]))
    · rw [h.phase] at he
      rwa [hphase, Phase.called, List.take_length]
  | restart e rest hphase hrepeat h => exact hs.restart hphase hrepeat h hclock
  | delete e rest hphase hrepeat h =>
    refine hs.mono (by rw [h.memory]) hclock (fun e he _ => ?_) fun e he _ => ?_
    · rw [uncalled_eq h] at he
      rwa [uncalled, hphase]
    · rw [h.phase] at he
      rw [hphase]
      exact List.mem_cons_of_mem _ he
  | endReset delay hphase h =>
    refine hs.mono (by rw [h.memory]) hclock (fun e he _ => ?_) fun e he _ => ?_
    · rw [uncalled_eq h] at he
      rwa [uncalled, hphase]
    · rw [h.phase] at he
      cases he

/-- What one step does to a timer that it does not add again. -/
theorem paced_step {l : Label} (hs : Paced timer contents calls s) (htimely : s.Timely)
    (honce : ∀ contents delay, l ≠ .addTimerInLoop timer contents delay) (h : step s l = some t) :
    Paced timer contents (calls ++ callOf timer s l) t := by
  have hclock := clock_le_of_step h
  by_cases hl : l = .run
  · subst hl
    have hnow : t.clock = s.clock := by
      simp only [step] at h
      split at h
      · split_ifs at h
        cases h
        rfl
      · cases h
    have hstep := stepTo_of_step h
    clear h
    cases hstep with
    | run expired called hphase hlt h =>
      simp only [callOf, hphase, List.getElem?_eq_getElem hlt, Option.map_some, Option.some.injEq]
      split_ifs with htimer
      · exact hs.call htimely hphase hlt h hnow htimer
      · rw [List.append_nil]
        refine hs.mono (by rw [h.memory]) hclock (fun e he _ => ?_) fun e he hetimer => ?_
        · rw [uncalled_eq h] at he
          rw [uncalled, hphase]
          refine (List.append_sublist_append_left _).2 ?_ |>.subset he
          exact List.drop_sublist_drop_left _ (Nat.le_succ _)
        · rw [h.phase, Phase.called, List.take_add_one, List.getElem?_eq_getElem hlt] at he
          rw [hphase]
          rcases List.mem_append.1 he with he | he
          · exact he
          · rw [List.mem_singleton.1 he] at hetimer
            exact absurd hetimer htimer
  · rw [callOf_of_ne_run hl, List.append_nil]
    exact paced_of_ne_run hs honce hl hclock (stepTo_of_step h)

/-- A timer that has just been added. -/
theorem paced_added {delay : ℕ}
    (h : step s (.addTimerInLoop timer contents delay) = some t) :
    Paced timer contents [] t := by
  have hstep := stepTo_of_step h
  clear h
  cases hstep with
  | addTimerInLoop _ _ _ houtside hnew h =>
    have hmemory : t.memory timer = contents := by rw [h.memory, Function.update_self]
    have hfresh : ∀ e ∈ s.timers.toList ++ s.phase.held, e.timer ≠ timer :=
      fun e he heq => hnew (heq ▸ List.mem_map_of_mem he)
    refine ⟨by rw [hmemory], by rw [hmemory], .singleton _, by simp, ?_, ?_, by simp⟩
    · intro e he htimer
      refine ⟨?_, fun _ => rfl⟩
      rw [uncalled_eq h] at he
      rcases List.mem_append.1 he with he | he
      · rcases OrderedSet.mem_insert.1 he with rfl | he
        · rintro last ⟨⟩
          rw [Entry.when_make]
          exact (Int.sub_add_cancel contents.expiration contents.interval).le
        · exact absurd htimer (hfresh e (List.mem_append_left _ he))
      · refine absurd htimer (hfresh e (List.mem_append_right _ ?_))
        cases hphase : s.phase with
        | calling expired called =>
          rw [hphase] at he
          exact List.mem_of_mem_drop he
        | _ =>
          rw [hphase] at he
          cases he
    · intro e he htimer
      rw [h.phase] at he
      refine absurd htimer (hfresh e (List.mem_append_right _ ?_))
      cases hphase : s.phase with
      | calling expired called =>
        rw [hphase] at he
        exact List.mem_of_mem_take he
      | resetting expired =>
        rw [hphase] at he
        exact he
      | _ =>
        rw [hphase] at he
        cases he

end

/-! ### Whole runs -/

/-- In a sequence of times at least `d` apart, number `k` lies `k * d` behind the first one. -/
theorem le_of_isChain {a d : ℤ} {times : List TimeStamp} {k : ℕ} {time : TimeStamp}
    (h : (a :: times).IsChain fun a b => a + d ≤ b) (hk : times[k]? = some time) :
    a + (k + 1) * d ≤ time := by
  induction times generalizing a k with
  | nil => simp at hk
  | cons b times ih =>
    obtain ⟨hab, hrest⟩ := List.isChain_cons_cons.1 h
    cases k with
    | zero =>
      cases hk
      simpa using hab
    | succ k =>
      have hle := ih hrest hk
      push_cast
      linarith

/-- **The pace of a timer.**  In every run, the clock being never set back, and as long as its
address is not used again, a timer is not called before its expiration, and number `k` of its calls
not before `k` intervals behind that; two calls in a row are at least an interval apart; and a timer
that does not repeat is called once at most. -/
theorem timers_paced {clock : TimeStamp} {memory : ℕ → Timer} {pre post : List Label} {timer : ℕ}
    {contents : Timer} {delay : ℕ} {u s : TimerQueue}
    (hu : run step (construct clock memory) (pre ++ [.addTimerInLoop timer contents delay]) = some u)
    (hs : run step u post = some s)
    (honce : ∀ contents delay, .addTimerInLoop timer contents delay ∉ post) :
    (∀ (k : ℕ) time, (callTimes timer u post)[k]? = some time →
      contents.expiration + k * contents.interval ≤ time) ∧
    ((callTimes timer u post).IsChain fun a b => a + contents.interval ≤ b) ∧
    (contents.repeat_ = false → (callTimes timer u post).length ≤ 1) := by
  have hpaced : s.Timely ∧ Paced timer contents (callTimes timer u post) s := by
    obtain ⟨v, hv, hadd⟩ := run_concat_eq_some.1 hu
    have htimely : v.Timely :=
      run_preserves (fun _ _ _ hw hstep => timely_step hw hstep) (timely_construct clock memory) hv
    refine run_history (P := fun ms w => (∀ contents delay, .addTimerInLoop timer contents delay ∉ ms)
      → w.Timely ∧ Paced timer contents (callTimes timer u ms) w)
      (fun _ => ⟨timely_step htimely hadd, paced_added hadd⟩) ?_ hs honce
    intro ms w l x hw hms hstep hnone
    obtain ⟨htimely, hpaced⟩ := hms fun c d hmem => hnone c d (List.mem_append_left _ hmem)
    refine ⟨timely_step htimely hstep, ?_⟩
    rw [callTimes, emitted_concat hw]
    exact paced_step hpaced htimely
      (fun c d heq => hnone c d (List.mem_append_right _ (heq ▸ List.mem_singleton_self _))) hstep
  have hchain := hpaced.2.chain
  refine ⟨fun k time hk => ?_, hchain.tail, hpaced.2.once⟩
  have hle := le_of_isChain hchain hk
  rw [Timer.origin] at hle
  linarith

/-- Two expiries of a timer that was made by `runEvery` at 1000 with an interval of 500. -/
def everyTwice : List Label :=
  [.tick 1500, .expire, .handleRead, .readTimerfd, .run, .endCalling, .restart, .endReset 0,
    .tick 2100, .expire, .handleRead, .readTimerfd, .run]

theorem timers_paced_every :
    ∃ u s, run step (construct 1000 fun _ => .make 0 0)
        ([] ++ [.addTimerInLoop 8 (EventLoop.runEvery 1000 500) 0]) = some u ∧
      run step u everyTwice = some s ∧ callTimes 8 u everyTwice = [1500, 2100] ∧
      (callTimes 8 u everyTwice).IsChain fun a b => a + (EventLoop.runEvery 1000 500).interval ≤ b := by
  have hnone : ∀ contents delay, .addTimerInLoop 8 contents delay ∉ everyTwice := by
    simp [everyTwice]
  have hpaced : ∀ u s, run step (construct 1000 fun _ => .make 0 0)
      ([] ++ [.addTimerInLoop 8 (EventLoop.runEvery 1000 500) 0]) = some u →
      run step u everyTwice = some s → (callTimes 8 u everyTwice).IsChain
        fun a b => a + (EventLoop.runEvery 1000 500).interval ≤ b :=
    fun _ _ hu hs => (timers_paced hu hs hnone).2.1
  exact ⟨_, _, rfl, rfl, rfl, hpaced _ _ rfl rfl⟩

end TimerQueue

end TinyNetwork
