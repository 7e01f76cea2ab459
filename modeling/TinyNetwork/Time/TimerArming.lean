import TinyNetwork.Time.TimerQueue

/-!
# No timer is forgotten

Between the operations of the loop thread the timerfd stands for the earliest timer: it has expired,
or it is armed for that timer (`no_timer_forgotten`).  The waiting time is computed from one reading
of the clock and counted from a later one, so the deadline is late by the time between the two.
-/

namespace TinyNetwork

open Lts

namespace TimerQueue

/-- The time between the reading of the clock and `timerfd_settime`. -/
def Arming.lag (a : Arming) : ℤ := a.settime - a.now

/-- The timerfd has expired, or its deadline is not later than `when` and a lag, or than 100
microseconds after the last arming. -/
def CoveredAt (s : TimerQueue) (lag : Arming → ℤ) (when : TimeStamp) : Prop :=
  s.timerfd = .expired ∨ ∃ deadline a, s.timerfd = .armed deadline ∧ s.armings.getLast? = some a ∧
    deadline ≤ max (when + lag a) (a.settime + 100)

/-- A difference of two time stamps that fits an `int64_t`. -/
def FitsInt64 (x : ℤ) : Prop := -2 ^ 63 ≤ x ∧ x < 2 ^ 63

instance (x : ℤ) : Decidable (FitsInt64 x) := inferInstanceAs (Decidable (_ ∧ _))

/-- What a step arms the timerfd for differs from now by a number that fits. -/
def Fits (s : TimerQueue) : Label → Prop
  | .addTimerInLoop _ contents _ =>
    s.earliestChanged contents.expiration = true → FitsInt64 (contents.expiration - s.clock)
  | .endReset _ =>
    ∀ it ∈ s.timers.first?, FitsInt64 ((s.memory it.timer).expiration - s.clock)
  | _ => True

instance (s : TimerQueue) (l : Label) : Decidable (s.Fits l) :=
  match l with
  | .addTimerInLoop _ _ _ => inferInstanceAs (Decidable (_ → _))
  | .endReset _ => inferInstanceAs (Decidable (∀ it ∈ s.timers.first?, _))
  | .tick _ | .expire | .handleRead | .readTimerfd | .run | .endCalling | .restart => isTrue trivial

/-! ### Arming -/

theorem hundred_le_microseconds (expiration now : TimeStamp) :
    100 ≤ microseconds expiration now := by
  unfold microseconds
  simp only
  split_ifs <;> omega

theorem microseconds_of_fits {expiration now : TimeStamp} (h : FitsInt64 (expiration - now)) :
    microseconds expiration now = max (expiration - now) 100 := by
  obtain ⟨hlow, hhigh⟩ := h
  have hmod : (expiration - now).bmod (2 ^ 64) = expiration - now :=
    Int.bmod_eq_of_le (by omega) (by omega)
  unfold microseconds
  simp only [hmod]
  split_ifs <;> omega

/-- A positive number of microseconds is not a zero `it_value`. -/
theorem timespecOf_ne_zero {m : ℤ} (h : 100 ≤ m) : timespecOf m ≠ ⟨0, 0⟩ := by
  intro hzero
  obtain ⟨hsec, hnsec⟩ := Timespec.mk.inj hzero
  rw [kMicroSecondsPerSecond_eq] at hsec hnsec
  omega

theorem timerfdSettime_timespecOf (clock : TimeStamp) {m : ℤ} (h : 100 ≤ m) :
    timerfdSettime clock (timespecOf m) = .armed (clock + m) := by
  unfold timerfdSettime
  rw [if_neg (timespecOf_ne_zero h)]
  refine congrArg Timerfd.armed ?_
  have hvalue : m / kMicroSecondsPerSecond * 1000000 +
      m % kMicroSecondsPerSecond * 1000 / 1000 = m := by
    rw [kMicroSecondsPerSecond_eq]
    omega
  simp only [timespecOf]
  rw [add_assoc, hvalue]

/-- The deadline of an arming, `delay` after the reading of the clock. -/
theorem deadline_le {clock expiration when : ℤ} (delay : ℤ) (h : expiration ≤ when) :
    clock + delay + max (expiration - clock) 100 ≤
      max (when + (clock + delay - clock)) (clock + delay + 100) := by
  omega

/-- The timerfd armed for `expiration` covers everything from there on. -/
theorem coveredAt_resetTimerfd (s : TimerQueue) {expiration when : TimeStamp} (delay : ℕ)
    (hfits : FitsInt64 (expiration - s.clock)) (hle : expiration ≤ when) :
    (s.resetTimerfd expiration delay).CoveredAt Arming.lag when := by
  refine .inr ⟨_, _, timerfdSettime_timespecOf _ (hundred_le_microseconds _ _),
    List.getLast?_concat, ?_⟩
  rw [microseconds_of_fits hfits]
  exact deadline_le delay hle

theorem CoveredAt.mono {s : TimerQueue} {lag : Arming → ℤ} {v w : TimeStamp}
    (h : s.CoveredAt lag v) (hle : v ≤ w) : s.CoveredAt lag w := by
  rcases h with h | ⟨deadline, a, harmed, hlast, hd⟩
  · exact .inl h
  · exact .inr ⟨deadline, a, harmed, hlast, hd.trans (max_le_max (by gcongr) le_rfl)⟩

/-! ### Insertion -/

@[simp] theorem Entry.when_make (when : TimeStamp) (timer : ℕ) : (make when timer).when = when := rfl

@[simp] theorem Entry.timer_make (when : TimeStamp) (timer : ℕ) :
    (make when timer).timer = timer := rfl

theorem Entry.when_le {e f : Entry} (h : e ≤ f) : e.when ≤ f.when := Prod.Lex.monotone_fst e f h

theorem le_of_earliestChanged {s : TimerQueue} {when : TimeStamp}
    (h : s.earliestChanged when = true) {e : Entry} (he : e ∈ s.timers.toList) : when ≤ e.when := by
  unfold earliestChanged at h
  split at h
  · rename_i hnone
    rw [OrderedSet.toList_eq_nil_of_first hnone] at he
    cases he
  · rename_i it hfirst
    have hlt : when < it.when := of_decide_eq_true h
    exact le_trans (le_of_lt hlt) (Entry.when_le (OrderedSet.first_le hfirst he))

theorem first_of_not_earliestChanged {s : TimerQueue} {when : TimeStamp}
    (h : s.earliestChanged when = false) : ∃ it ∈ s.timers.toList, it.when ≤ when := by
  unfold earliestChanged at h
  split at h
  · cases h
  · rename_i it hfirst
    exact ⟨it, OrderedSet.mem_of_first hfirst, not_lt.1 (of_decide_eq_false h)⟩

/-! ### What a step does to the timers -/

/-- The timers, the memory and the phase of a state. -/
structure Holds (t : TimerQueue) (timers : OrderedSet Entry) (memory : ℕ → Timer) (phase : Phase) :
    Prop where
  timers : t.timers = timers
  memory : t.memory = memory
  phase : t.phase = phase

/-- What a step does to the timers, label by label; the clock and the timerfd are left out. -/
inductive StepTo (s t : TimerQueue) : Label → Prop
  | tick (now : TimeStamp) (h : t.Holds s.timers s.memory s.phase) : StepTo s t (.tick now)
  | expire (h : t.Holds s.timers s.memory s.phase) : StepTo s t .expire
  | addTimerInLoop (timer : ℕ) (contents : Timer) (delay : ℕ) (houtside : s.phase.Outside)
      (hnew : timer ∉ s.alive)
      (h : t.Holds (s.timers.insert (.make contents.expiration timer))
        (Function.update s.memory timer contents) s.phase) :
      StepTo s t (.addTimerInLoop timer contents delay)
  | handleRead (hphase : s.phase = .idle) (h : t.Holds s.timers s.memory (.reading s.clock)) :
      StepTo s t .handleRead
  | readTimerfd (now : TimeStamp) (hphase : s.phase = .reading now)
      (h : t.Holds (s.timers.above (sentry now)) s.memory
        (.calling (s.timers.below (sentry now)) 0)) : StepTo s t .readTimerfd
  | run (expired : List Entry) (called : ℕ) (hphase : s.phase = .calling expired called)
      (hlt : called < expired.length)
      (h : t.Holds s.timers s.memory (.calling expired (called + 1))) : StepTo s t .run
  | endCalling (expired : List Entry) (hphase : s.phase = .calling expired expired.length)
      (h : t.Holds s.timers s.memory (.resetting expired)) : StepTo s t .endCalling
  | restart (e : Entry) (rest : List Entry) (hphase : s.phase = .resetting (e :: rest))
      (hrepeat : (s.memory e.timer).repeat_ = true)
      (h : t.Holds
        (s.timers.insert (.make (addTime s.clock (s.memory e.timer).interval) e.timer))
        (Function.update s.memory e.timer ((s.memory e.timer).restart s.clock))
        (.resetting rest)) : StepTo s t .restart
  | delete (e : Entry) (rest : List Entry) (hphase : s.phase = .resetting (e :: rest))
      (hrepeat : (s.memory e.timer).repeat_ = false)
      (h : t.Holds s.timers s.memory (.resetting rest)) : StepTo s t .restart
  | endReset (delay : ℕ) (hphase : s.phase = .resetting [])
      (h : t.Holds s.timers s.memory .idle) : StepTo s t (.endReset delay)

theorem holds_addTimerInLoop (s : TimerQueue) (timer : ℕ) (contents : Timer) (delay : ℕ) :
    ({ s with memory := Function.update s.memory timer contents }.addTimerInLoop timer delay).Holds
      (s.timers.insert (.make contents.expiration timer)) (Function.update s.memory timer contents)
      s.phase := by
  have hcontents : Function.update s.memory timer contents timer = contents :=
    Function.update_self _ _ _
  unfold TimerQueue.addTimerInLoop TimerQueue.insert
  simp only [hcontents]
  split_ifs <;> exact ⟨rfl, rfl, rfl⟩

/-- The expiration of a periodic timer that is restarted. -/
theorem expiration_restart {timer : Timer} (h : timer.repeat_ = true) (now : TimeStamp) :
    (timer.restart now).expiration = addTime now timer.interval := by
  rw [Timer.restart, if_pos h]

/-- Reading the timerfd changes nothing else. -/
theorem readTimerfd_eq (s : TimerQueue) :
    ∃ timerfd, s.readTimerfd = { s with timerfd := timerfd } := by
  unfold TimerQueue.readTimerfd
  split
  · exact ⟨.disarmed, rfl⟩
  · exact ⟨s.timerfd, rfl⟩

theorem stepTo_of_step {s t : TimerQueue} {l : Label} (h : step s l = some t) : StepTo s t l := by
  cases l with
  | tick now =>
    simp only [step] at h
    split_ifs at h
    cases h
    exact .tick now ⟨rfl, rfl, rfl⟩
  | expire =>
    simp only [step] at h
    split at h
    · split_ifs at h
      cases h
      exact .expire ⟨rfl, rfl, rfl⟩
    · cases h
  | addTimerInLoop timer contents delay =>
    simp only [step] at h
    split_ifs at h with hc
    cases h
    exact .addTimerInLoop timer contents delay hc.1 hc.2 (s.holds_addTimerInLoop timer contents delay)
  | handleRead =>
    simp only [step] at h
    split_ifs at h with hidle
    cases h
    exact .handleRead hidle ⟨rfl, rfl, rfl⟩
  | readTimerfd =>
    simp only [step] at h
    split at h
    · rename_i now hphase
      cases h
      obtain ⟨timerfd, hread⟩ := s.readTimerfd_eq
      rw [hread]
      exact .readTimerfd now hphase ⟨rfl, rfl, rfl⟩
    · cases h
  | run =>
    simp only [step] at h
    split at h
    · rename_i expired called hphase
      split_ifs at h with hlt
      cases h
      exact .run expired called hphase hlt ⟨rfl, rfl, rfl⟩
    · cases h
  | endCalling =>
    simp only [step] at h
    split at h
    · rename_i expired called hphase
      split_ifs at h with hall
      cases h
      exact .endCalling expired (hall ▸ hphase) ⟨rfl, rfl, rfl⟩
    · cases h
  | restart =>
    simp only [step] at h
    split at h
    · rename_i e rest hphase
      cases h
      cases hrepeat : (s.memory e.timer).repeat_ with
      | true =>
        refine .restart e rest hphase hrepeat ?_
        rw [← expiration_restart hrepeat]
        unfold TimerQueue.restart TimerQueue.insert
        simp only [hrepeat, if_true, Function.update_self]
        exact ⟨rfl, rfl, rfl⟩
      | false =>
        refine .delete e rest hphase hrepeat ?_
        unfold TimerQueue.restart
        simp only [hrepeat, Bool.false_eq_true, if_false]
        exact ⟨rfl, rfl, rfl⟩
    · cases h
  | endReset delay =>
    simp only [step] at h
    split at h
    · rename_i hphase
      cases h
      refine .endReset delay hphase ?_
      unfold TimerQueue.endReset
      split <;> exact ⟨rfl, rfl, rfl⟩
    · cases h

/-! ### Entries and timers -/

/-- Every entry has the expiration of its timer, and no timer is in use twice. -/
structure Keyed (s : TimerQueue) : Prop where
  keyed : ∀ e ∈ s.timers.toList, (s.memory e.timer).expiration = e.when
  alive : s.alive.Nodup

theorem keyed_construct (clock : TimeStamp) (memory : ℕ → Timer) : (construct clock memory).Keyed where
  keyed _ h := by cases h
  alive := List.nodup_nil

theorem alive_eq {t : TimerQueue} {timers : OrderedSet Entry} {memory : ℕ → Timer} {phase : Phase}
    (h : t.Holds timers memory phase) :
    t.alive = timers.toList.map Entry.timer ++ phase.held.map Entry.timer := by
  unfold TimerQueue.alive
  rw [h.timers, h.phase, List.map_append]

/-- An insertion of a timer that is not in use adds one entry. -/
theorem insert_make_perm {timers : OrderedSet Entry} {timer : ℕ} (when : TimeStamp)
    (h : timer ∉ timers.toList.map Entry.timer) :
    (timers.insert (.make when timer)).toList.Perm (.make when timer :: timers.toList) := by
  apply OrderedSet.insert_perm
  intro hmem
  exact h (List.mem_map.2 ⟨_, hmem, rfl⟩)

/-- A timer that is not an entry is stored and inserted. -/
theorem Keyed.insert {s t : TimerQueue} (hs : s.Keyed) {timer : ℕ} {contents : Timer}
    {phase : Phase} (h : t.Holds (s.timers.insert (.make contents.expiration timer))
      (Function.update s.memory timer contents) phase)
    (hnew : timer ∉ s.timers.toList.map Entry.timer)
    (halive : (timer :: s.timers.toList.map Entry.timer ++ phase.held.map Entry.timer).Nodup) :
    t.Keyed := by
  constructor
  · intro e he
    rw [h.timers] at he
    rw [h.memory]
    rcases OrderedSet.mem_insert.1 he with rfl | he
    · exact congrArg Timer.expiration (Function.update_self _ _ _)
    · have hne : e.timer ≠ timer := fun heq => hnew (heq ▸ List.mem_map_of_mem he)
      rw [Function.update_of_ne hne]
      exact hs.keyed e he
  · rw [alive_eq h]
    exact (((insert_make_perm _ hnew).map Entry.timer).append_right _).nodup_iff.2 halive

/-- Entries that are left alone, and timers in use that are no new ones. -/
theorem Keyed.of_sublist {s t : TimerQueue} (hs : s.Keyed) {timers : OrderedSet Entry}
    {phase : Phase} (h : t.Holds timers s.memory phase) (hsub : timers.toList ⊆ s.timers.toList)
    (halive : (timers.toList.map Entry.timer ++ phase.held.map Entry.timer).Nodup) : t.Keyed := by
  constructor
  · intro e he
    rw [h.timers] at he
    rw [h.memory]
    exact hs.keyed e (hsub he)
  · rw [alive_eq h]
    exact halive

/-- Only the phase changes, and the same timers are held. -/
theorem Keyed.of_held {s t : TimerQueue} (hs : s.Keyed) {phase : Phase}
    (h : t.Holds s.timers s.memory phase) (hheld : phase.held = s.phase.held) : t.Keyed := by
  refine hs.of_sublist h (List.Subset.refl _) ?_
  rw [hheld, ← List.map_append]
  exact hs.alive

theorem keyed_stepTo {s t : TimerQueue} {l : Label} (hs : s.Keyed) (h : StepTo s t l) :
    t.Keyed := by
  have halive : (s.timers.toList.map Entry.timer ++ s.phase.held.map Entry.timer).Nodup := by
    rw [← List.map_append]
    exact hs.alive
  cases h with
  | tick now h => exact hs.of_held h rfl
  | expire h => exact hs.of_held h rfl
  | addTimerInLoop timer contents delay houtside hnew h =>
    unfold TimerQueue.alive at hnew
    rw [List.map_append] at hnew
    exact hs.insert h (fun hin => hnew (List.mem_append_left _ hin))
      (List.nodup_cons.2 ⟨hnew, halive⟩)
  | handleRead hphase h => exact hs.of_held h (by rw [hphase]; rfl)
  | readTimerfd now hphase h =>
    have hsplit := s.timers.below_append_above (sentry now)
    refine hs.of_sublist h (fun e he => hsplit ▸ List.mem_append_right _ he) ?_
    -- the set is cut in two, and the front is held
    have hnodup := (List.nodup_append.1 halive).1
    rw [← hsplit, List.map_append] at hnodup
    exact List.perm_append_comm.nodup_iff.1 hnodup
  | run expired called hphase hlt h => exact hs.of_held h (by rw [hphase]; rfl)
  | endCalling expired hphase h => exact hs.of_held h (by rw [hphase]; rfl)
  | restart e rest hphase hrepeat h =>
    rw [hphase] at halive
    rw [← expiration_restart hrepeat] at h
    refine hs.insert h (fun hin => ?_) (List.perm_middle.nodup_iff.1 halive)
    exact (List.nodup_append.1 halive).2.2 _ hin _ List.mem_cons_self rfl
  | delete e rest hphase hrepeat h =>
    rw [hphase] at halive
    refine hs.of_sublist h (List.Subset.refl _) (halive.sublist ?_)
    exact (List.Sublist.refl _).append (List.sublist_cons_self _ _)
  | endReset delay hphase h => exact hs.of_held h (by rw [hphase]; rfl)

/-! ### The invariant -/

/-- The timerfd stands for the timers, if nobody is in `handleRead`. -/
structure Armed (s : TimerQueue) : Prop where
  covered : s.phase = .idle → ∀ e ∈ s.timers.toList, s.CoveredAt Arming.lag e.when
  nonzero : ∀ a ∈ s.armings, a.value ≠ ⟨0, 0⟩

structure Inv (s : TimerQueue) : Prop extends s.Keyed, s.Armed

theorem inv_construct (clock : TimeStamp) (memory : ℕ → Timer) : (construct clock memory).Inv :=
  { keyed_construct clock memory with
    covered := fun _ _ h => by cases h
    nonzero := fun _ h => by cases h }

/-- Inside `handleRead` the timerfd may stand for nothing. -/
theorem armed_of_busy {s : TimerQueue} (hnonzero : ∀ a ∈ s.armings, a.value ≠ ⟨0, 0⟩)
    (hbusy : s.phase ≠ .idle) : s.Armed :=
  ⟨fun hidle => absurd hidle hbusy, hnonzero⟩

/-- Arming renews the cover. -/
theorem armed_resetTimerfd {s : TimerQueue} {expiration : TimeStamp} (delay : ℕ)
    (hnonzero : ∀ a ∈ s.armings, a.value ≠ ⟨0, 0⟩) (hfits : FitsInt64 (expiration - s.clock))
    (hle : ∀ e ∈ s.timers.toList, expiration ≤ e.when) :
    (s.resetTimerfd expiration delay).Armed where
  covered _ e he := s.coveredAt_resetTimerfd delay hfits (hle e he)
  nonzero a ha := by
    rcases List.mem_append.1 ha with ha | ha
    · exact hnonzero a ha
    · rw [List.mem_singleton.1 ha]
      exact timespecOf_ne_zero (hundred_le_microseconds _ _)

theorem Armed.addTimerInLoop {s : TimerQueue} (hs : s.Armed) (timer : ℕ) {contents : Timer}
    (delay : ℕ) (hfits : s.earliestChanged contents.expiration = true →
      FitsInt64 (contents.expiration - s.clock)) :
    Armed ({ s with memory := Function.update s.memory timer contents }.addTimerInLoop timer delay) := by
  set t : TimerQueue := { s with memory := Function.update s.memory timer contents } with ht
  have hcontents : t.memory timer = contents := Function.update_self _ _ _
  -- the new entry and the old ones
  have hmem : ∀ e, e ∈ (t.insert timer).2.timers.toList →
      e = .make contents.expiration timer ∨ e ∈ s.timers.toList := by
    intro e he
    have he := OrderedSet.mem_insert.1 he
    rwa [hcontents] at he
  unfold TimerQueue.addTimerInLoop
  rw [hcontents]
  have hfirst : (t.insert timer).1 = s.earliestChanged contents.expiration := by
    rw [← hcontents]
    rfl
  split_ifs with hchanged
  · rw [hfirst] at hchanged
    refine armed_resetTimerfd delay hs.nonzero (hfits hchanged) fun e he => ?_
    rcases hmem e he with rfl | he
    · exact le_rfl
    · exact le_of_earliestChanged hchanged he
  · rw [hfirst, Bool.not_eq_true] at hchanged
    refine ⟨fun hidle e he => ?_, hs.nonzero⟩
    rcases hmem e he with rfl | he
    · obtain ⟨it, hit, hle⟩ := first_of_not_earliestChanged hchanged
      exact (hs.covered hidle it hit).mono hle
    · exact hs.covered hidle e he

theorem Inv.endReset {s : TimerQueue} (hs : s.Inv) (delay : ℕ)
    (hfits : ∀ it ∈ s.timers.first?, FitsInt64 ((s.memory it.timer).expiration - s.clock)) :
    Armed { s.endReset delay with phase := .idle } := by
  unfold TimerQueue.endReset
  split
  · rename_i hnone
    refine ⟨fun _ e he => ?_, hs.nonzero⟩
    rw [OrderedSet.toList_eq_nil_of_first hnone] at he
    cases he
  · rename_i it hfirst
    refine armed_resetTimerfd (s := { s with phase := .idle }) delay hs.nonzero
      (hfits it hfirst) fun e he => ?_
    rw [hs.keyed it (OrderedSet.mem_of_first hfirst)]
    exact Entry.when_le (OrderedSet.first_le hfirst he)

theorem armed_step {s t : TimerQueue} {l : Label} (hs : s.Inv) (hfits : s.Fits l)
    (h : step s l = some t) : t.Armed := by
  cases l with
  | tick now =>
    simp only [step] at h
    split_ifs at h
    cases h
    exact ⟨hs.covered, hs.nonzero⟩
  | expire =>
    simp only [step] at h
    split at h
    · split_ifs at h
      cases h
      exact ⟨fun _ _ _ => .inl rfl, hs.nonzero⟩
    · cases h
  | addTimerInLoop timer contents delay =>
    simp only [step] at h
    split_ifs at h
    cases h
    exact hs.toArmed.addTimerInLoop timer delay hfits
  | handleRead =>
    simp only [step] at h
    split_ifs at h
    cases h
    exact armed_of_busy hs.nonzero (by simp)
  | readTimerfd =>
    simp only [step] at h
    split at h
    · cases h
      obtain ⟨timerfd, hread⟩ := s.readTimerfd_eq
      rw [hread]
      exact armed_of_busy hs.nonzero (by simp)
    · cases h
  | run =>
    simp only [step] at h
    split at h
    · split_ifs at h
      cases h
      exact armed_of_busy hs.nonzero (by simp)
    · cases h
  | endCalling =>
    simp only [step] at h
    split at h
    · split_ifs at h
      cases h
      exact armed_of_busy hs.nonzero (by simp)
    · cases h
  | restart =>
    simp only [step] at h
    split at h
    · rename_i e rest hphase
      cases h
      refine armed_of_busy ?_ (by simp)
      unfold TimerQueue.restart
      split_ifs <;> exact hs.nonzero
    · cases h
  | endReset delay =>
    simp only [step] at h
    split at h
    · cases h
      exact hs.endReset delay hfits
    · cases h

theorem inv_step {s t : TimerQueue} {l : Label} (hs : s.Inv) (hfits : s.Fits l)
    (h : step s l = some t) : t.Inv :=
  { keyed_stepTo hs.toKeyed (stepTo_of_step h), armed_step hs hfits h with }

/-- **No timer is forgotten.**  In every run whose armings are for times that differ from now by an
`int64_t`: outside `handleRead` the timerfd has expired, or is armed with a deadline that is not
later than the earliest timer and the lag of the last arming, or than 100 microseconds after that
arming.  No arming passes a zero `it_value`. -/
theorem no_timer_forgotten {clock : TimeStamp} {memory : ℕ → Timer} {ls : List Label}
    {s : TimerQueue} (hls : Along step Fits (construct clock memory) ls)
    (h : run step (construct clock memory) ls = some s) :
    (s.phase = .idle → ∀ earliest ∈ s.timers.first?, s.CoveredAt Arming.lag earliest.when) ∧
      ∀ a ∈ s.armings, a.value ≠ ⟨0, 0⟩ := by
  have hinv : s.Inv :=
    run_preserves_along (fun _ _ _ hs hl hstep => inv_step hs hl hstep) (inv_construct _ _) hls h
  refine ⟨fun hidle earliest hfirst => ?_, hinv.nonzero⟩
  exact hinv.covered hidle earliest (OrderedSet.mem_of_first hfirst)

/-- A periodic timer expires, and its callback adds a timer that comes before its next time. -/
def addInCallback : List Label :=
  [.addTimerInLoop 1 ⟨1000, 500, true⟩ 0, .tick 1000, .expire, .handleRead, .readTimerfd, .run,
    .addTimerInLoop 2 ⟨1200, 0, false⟩ 3, .endCalling, .restart, .endReset 2]

theorem no_timer_forgotten_callback :
    ∃ s, run step (construct 0 fun _ => ⟨0, 0, false⟩) addInCallback = some s ∧
      s.timers.toList.map Entry.when = [1200, 1503] ∧ s.timerfd = .armed 1202 ∧
      s.CoveredAt Arming.lag 1200 := by
  have hrun : run step (construct 0 fun _ => ⟨0, 0, false⟩) addInCallback = some _ := rfl
  refine ⟨_, hrun, rfl, rfl, (no_timer_forgotten (by decide) hrun).1 rfl (.make 1200 2) rfl⟩

/-- Five microseconds pass between the reading of the clock and `timerfd_settime`: the timerfd is
armed for five microseconds after the only timer. -/
theorem armed_behind_earliest :
    ∃ s, run step (construct 0 fun _ => ⟨0, 0, false⟩) [.addTimerInLoop 1 ⟨1000, 0, false⟩ 5] =
        some s ∧
      Along step Fits (construct 0 fun _ => ⟨0, 0, false⟩)
        [.addTimerInLoop 1 ⟨1000, 0, false⟩ 5] ∧
      s.phase = .idle ∧ s.timers.first? = some (.make 1000 1) ∧ s.timerfd = .armed 1005 ∧
      ¬ s.CoveredAt (fun _ => 0) 1000 := by
  refine ⟨_, rfl, by decide, rfl, rfl, rfl, ?_⟩
  rintro (hexpired | ⟨deadline, a, harmed, hlast, hd⟩)
  · cases hexpired
  · cases harmed
    cases hlast
    exact absurd hd (by decide)

end TimerQueue

end TinyNetwork
