import TinyNetwork.Time.TimerArming
import Mathlib.Data.List.Nodup
import Mathlib.Data.List.Perm.Basic

/-!
# One expiry of the timers

`expiry_exact`: a call of `handleRead` runs the timers that are due, in the order of their
expirations, and nothing else; it deletes those that are not periodic, and leaves behind the timers
that were not due, those that the callbacks added, and the periodic ones with their next time.

Here the clock may also be set, at any time and to any value.
-/

namespace TinyNetwork

open Lts

namespace TimerQueue

/-- A step of the queue, or of whoever sets the clock. -/
inductive Event
  | step (l : Label)
  | setClock (now : TimeStamp)

def stepEvent (s : TimerQueue) : Event → Option TimerQueue
  | .step l => step s l
  | .setClock now => some { s with clock := now }

/-- No object begins at the last byte of the address space. -/
def Event.Addressable : Event → Prop
  | .step (.addTimerInLoop timer _ _) => timer < 2 ^ 64 - 1
  | _ => True

instance : DecidablePred Event.Addressable := fun e => by
  unfold Event.Addressable
  split <;> infer_instance

/-! ### What the steps do to the timers -/

/-- The timer whose callback is called. -/
def runOf (s : TimerQueue) : Event → List ℕ
  | .step .run =>
    match s.phase with
    | .calling expired called => (expired[called]?.map Entry.timer).toList
    | _ => []
  | _ => []

/-- The entry of a timer that is added. -/
def addOf (_ : TimerQueue) : Event → List Entry
  | .step (.addTimerInLoop timer contents _) => [.make contents.expiration timer]
  | _ => []

/-- A periodic timer is restarted, at the time that the clock shows. -/
def restartOf (s : TimerQueue) : Event → List (TimeStamp × ℕ)
  | .step .restart =>
    match s.phase with
    | .resetting (e :: _) => if (s.memory e.timer).repeat_ then [(s.clock, e.timer)] else []
    | _ => []
  | _ => []

/-- A timer is deleted. -/
def deleteOf (s : TimerQueue) : Event → List ℕ
  | .step .restart =>
    match s.phase with
    | .resetting (e :: _) => if (s.memory e.timer).repeat_ then [] else [e.timer]
    | _ => []
  | _ => []

/-- The timers run by the events, in order. -/
def ran (s : TimerQueue) (es : List Event) : List ℕ := emitted stepEvent runOf s es

/-- The entries added. -/
def added (s : TimerQueue) (es : List Event) : List Entry := emitted stepEvent addOf s es

/-- The timers restarted, and when. -/
def restarted (s : TimerQueue) (es : List Event) : List (TimeStamp × ℕ) :=
  emitted stepEvent restartOf s es

/-- The timers deleted. -/
def deleted (s : TimerQueue) (es : List Event) : List ℕ := emitted stepEvent deleteOf s es

/-- The entries that are due. -/
def due (s : TimerQueue) : List Entry := s.timers.toList.filter (·.when ≤ s.clock)

/-- The entries that are not due yet. -/
def later (s : TimerQueue) : List Entry := s.timers.toList.filter (s.clock < ·.when)

/-- Is the timer of the entry periodic? -/
def periodic (s : TimerQueue) (e : Entry) : Bool := (s.memory e.timer).repeat_

/-- The entry of a timer that was restarted: the time of the restart and the interval. -/
def rearmed (s : TimerQueue) (r : TimeStamp × ℕ) : Entry :=
  .make (addTime r.1 (s.memory r.2).interval) r.2

/-! ### The invariant of all runs -/

/-- The timers in use lie where objects can lie. -/
structure Sound (s : TimerQueue) : Prop extends s.Keyed where
  addressable : ∀ timer ∈ s.alive, timer < 2 ^ 64 - 1

theorem sound_construct (clock : TimeStamp) (memory : ℕ → Timer) :
    (construct clock memory).Sound :=
  ⟨keyed_construct clock memory, fun _ h => by cases h⟩

/-- A timer in use after a step was in use before, or has been added. -/
theorem mem_alive_stepTo {s t : TimerQueue} {l : Label} (h : StepTo s t l) {timer : ℕ}
    (hmem : timer ∈ t.alive) :
    timer ∈ s.alive ∨ ∃ contents delay, l = .addTimerInLoop timer contents delay := by
  have hinsert : ∀ (when : TimeStamp) (i : ℕ),
      timer ∈ (s.timers.insert (.make when i)).toList.map Entry.timer →
        timer = i ∨ timer ∈ s.timers.toList.map Entry.timer := by
    intro when i hin
    obtain ⟨e, he, rfl⟩ := List.mem_map.1 hin
    rcases OrderedSet.mem_insert.1 he with rfl | he
    · exact .inl rfl
    · exact .inr (List.mem_map_of_mem he)
  have halive : s.alive = s.timers.toList.map Entry.timer ++ s.phase.held.map Entry.timer :=
    List.map_append
  rw [halive]
  cases h with
  | tick now h =>
    rw [alive_eq h] at hmem
    exact .inl hmem
  | expire h =>
    rw [alive_eq h] at hmem
    exact .inl hmem
  | addTimerInLoop i contents delay houtside hnew h =>
    rw [alive_eq h] at hmem
    rcases List.mem_append.1 hmem with hin | hheld
    · rcases hinsert _ _ hin with rfl | hin
      · exact .inr ⟨contents, delay, rfl⟩
      · exact .inl (List.mem_append_left _ hin)
    · exact .inl (List.mem_append_right _ hheld)
  | handleRead hphase h =>
    rw [alive_eq h] at hmem
    rw [hphase]
    exact .inl hmem
  | readTimerfd now hphase h =>
    rw [alive_eq h] at hmem
    refine .inl (List.mem_append_left _ ?_)
    rw [← s.timers.below_append_above (sentry now), List.map_append]
    exact List.perm_append_comm.mem_iff.1 hmem
  | run expired called hphase hlt h =>
    rw [alive_eq h] at hmem
    rw [hphase]
    exact .inl hmem
  | endCalling expired hphase h =>
    rw [alive_eq h] at hmem
    rw [hphase]
    exact .inl hmem
  | restart e rest hphase hrepeat h =>
    rw [alive_eq h] at hmem
    rw [hphase]
    refine .inl ?_
    rcases List.mem_append.1 hmem with hin | hheld
    · rcases hinsert _ _ hin with rfl | hin
      · exact List.mem_append_right _ List.mem_cons_self
      · exact List.mem_append_left _ hin
    · exact List.mem_append_right _ (List.mem_cons_of_mem _ hheld)
  | delete e rest hphase hrepeat h =>
    rw [alive_eq h] at hmem
    rw [hphase]
    rcases List.mem_append.1 hmem with hin | hheld
    · exact .inl (List.mem_append_left _ hin)
    · exact .inl (List.mem_append_right _ (List.mem_cons_of_mem _ hheld))
  | endReset delay hphase h =>
    rw [alive_eq h] at hmem
    rw [hphase]
    exact .inl hmem

theorem sound_stepEvent {s t : TimerQueue} {e : Event} (hs : s.Sound) (he : e.Addressable)
    (h : stepEvent s e = some t) : t.Sound := by
  cases e with
  | step l =>
    have hstep := stepTo_of_step h
    refine ⟨keyed_stepTo hs.toKeyed hstep, fun timer hmem => ?_⟩
    rcases mem_alive_stepTo hstep hmem with hold | ⟨contents, delay, rfl⟩
    · exact hs.addressable timer hold
    · exact he
  | setClock now =>
    cases h
    exact ⟨⟨hs.keyed, hs.alive⟩, hs.addressable⟩

/-! ### The entries that are due -/

/-- The sentry lies behind all entries of its time. -/
theorem lt_sentry_iff {e : Entry} (h : e.timer < 2 ^ 64 - 1) (now : TimeStamp) :
    e < sentry now ↔ e.when ≤ now := by
  have hlex : e < sentry now ↔ e.when < now ∨ e.when = now ∧ e.timer < 2 ^ 64 - 1 :=
    Prod.Lex.lt_iff
  rw [hlex]
  constructor
  · rintro (hlt | ⟨heq, -⟩)
    · exact hlt.le
    · exact heq.le
  · intro hle
    rcases hle.lt_or_eq with hlt | heq
    · exact .inl hlt
    · exact .inr ⟨heq, h⟩

theorem Sound.lt_sentry {s : TimerQueue} (hs : s.Sound) {e : Entry} (he : e ∈ s.timers.toList) :
    e < sentry s.clock ↔ e.when ≤ s.clock :=
  lt_sentry_iff (hs.addressable _ (List.mem_map_of_mem (List.mem_append_left _ he))) s.clock

theorem Sound.below_eq {s : TimerQueue} (hs : s.Sound) :
    s.timers.below (sentry s.clock) = s.due := by
  rw [OrderedSet.below_eq_filter]
  exact List.filter_congr fun e he => decide_eq_decide.2 (hs.lt_sentry he)

theorem Sound.above_eq {s : TimerQueue} (hs : s.Sound) :
    (s.timers.above (sentry s.clock)).toList = s.later := by
  rw [OrderedSet.above_eq_filter]
  refine List.filter_congr fun e he => decide_eq_decide.2 ?_
  rw [← not_lt, hs.lt_sentry he, not_le]

/-- Entries with the same timer are the same. -/
theorem Keyed.eq_of_timer {s : TimerQueue} (hs : s.Keyed) {e f : Entry}
    (he : e ∈ s.timers.toList) (hf : f ∈ s.timers.toList) (h : e.timer = f.timer) : e = f := by
  have hnodup := hs.alive
  unfold TimerQueue.alive at hnodup
  rw [List.map_append] at hnodup
  exact List.inj_on_of_nodup_map (List.nodup_append.1 hnodup).1 he hf h

theorem due_ordered (s : TimerQueue) : s.due.Pairwise fun e f => e.when ≤ f.when :=
  (s.timers.sorted.imp fun h => Entry.when_le h.le).filter _

theorem Keyed.due_nodup {s : TimerQueue} (hs : s.Keyed) : (s.due.map Entry.timer).Nodup := by
  have hnodup := hs.alive
  unfold TimerQueue.alive at hnodup
  rw [List.map_append] at hnodup
  exact (List.nodup_append.1 hnodup).1.sublist (List.filter_sublist.map _)

/-! ### Inside a pass -/

/-- What has been done with the expired timers since `handleRead` began in `s₀`: those in `called`
were run, those in `finished` restarted or deleted, and those in `waiting` are as they were. -/
structure Books (s₀ u : TimerQueue) (es : List Event) (called finished waiting : List Entry) :
    Prop where
  runs : s₀.ran es = called.map Entry.timer
  restarts : (s₀.restarted es).map Prod.snd =
    (finished.filter s₀.periodic).map Entry.timer
  deletes : s₀.deleted es =
    (finished.filter fun e => !s₀.periodic e).map Entry.timer
  adds : ∀ e ∈ s₀.added es, e.timer ∉ s₀.due.map Entry.timer
  timers : u.timers.toList.Perm (s₀.later ++ s₀.added es ++
    (s₀.restarted es).map s₀.rearmed)
  memory : ∀ e ∈ waiting, u.memory e.timer = s₀.memory e.timer

/-- Where a pass that began in `s₀` has come to after the events `es`. -/
inductive InPass (s₀ : TimerQueue) (es : List Event) (u : TimerQueue) : Prop
  | reading (h : u.Holds s₀.timers s₀.memory (.reading s₀.clock))
      (hruns : s₀.ran es = []) (hadds : s₀.added es = [])
      (hrestarts : s₀.restarted es = [])
      (hdeletes : s₀.deleted es = [])
  | calling (called : ℕ) (hphase : u.phase = .calling s₀.due called) (hle : called ≤ s₀.due.length)
      (hbooks : Books s₀ u es (s₀.due.take called) [] s₀.due)
  | resetting (done rest : List Entry) (hphase : u.phase = .resetting rest)
      (hdue : s₀.due = done ++ rest) (hbooks : Books s₀ u es s₀.due done rest)

theorem InPass.busy {s₀ u : TimerQueue} {es : List Event} (h : InPass s₀ es u) :
    u.phase ≠ .idle := by
  intro hidle
  cases h with
  | reading h =>
    rw [h.phase] at hidle
    cases hidle
  | calling called hphase =>
    rw [hphase] at hidle
    cases hidle
  | resetting done rest hphase =>
    rw [hphase] at hidle
    cases hidle

/-- What one more event adds to the history. -/
theorem history_concat {s₀ u : TimerQueue} {es : List Event} (h : run stepEvent s₀ es = some u)
    (e : Event) :
    s₀.ran (es ++ [e]) = s₀.ran es ++ u.runOf e ∧
      s₀.added (es ++ [e]) = s₀.added es ++ u.addOf e ∧
      s₀.restarted (es ++ [e]) = s₀.restarted es ++ u.restartOf e ∧
      s₀.deleted (es ++ [e]) = s₀.deleted es ++ u.deleteOf e :=
  ⟨emitted_concat h e, emitted_concat h e, emitted_concat h e, emitted_concat h e⟩

/-- An event that does nothing to the timers. -/
theorem Books.still {s₀ u v : TimerQueue} {es : List Event} {called finished waiting : List Entry}
    (hb : Books s₀ u es called finished waiting) {e : Event} (hrun : run stepEvent s₀ es = some u)
    (htimers : v.timers = u.timers) (hmemory : v.memory = u.memory) (hruns : u.runOf e = [])
    (hadds : u.addOf e = []) (hrestarts : u.restartOf e = []) (hdeletes : u.deleteOf e = []) :
    Books s₀ v (es ++ [e]) called finished waiting := by
  obtain ⟨hran, hadded, hrestarted, hdeleted⟩ := history_concat hrun e
  rw [hruns, List.append_nil] at hran
  rw [hadds, List.append_nil] at hadded
  rw [hrestarts, List.append_nil] at hrestarted
  rw [hdeletes, List.append_nil] at hdeleted
  constructor
  · rw [hran]
    exact hb.runs
  · rw [hrestarted]
    exact hb.restarts
  · rw [hdeleted]
    exact hb.deletes
  · rw [hadded]
    exact hb.adds
  · rw [hadded, hrestarted, htimers]
    exact hb.timers
  · rw [hmemory]
    exact hb.memory

theorem InPass.still {s₀ u v : TimerQueue} {es : List Event} {e : Event}
    (hrun : run stepEvent s₀ es = some u) (h : InPass s₀ es u)
    (hv : v.Holds u.timers u.memory u.phase) (hruns : u.runOf e = []) (hadds : u.addOf e = [])
    (hrestarts : u.restartOf e = []) (hdeletes : u.deleteOf e = []) :
    InPass s₀ (es ++ [e]) v := by
  cases h with
  | reading hu hr ha hs hd =>
    obtain ⟨hran, hadded, hrestarted, hdeleted⟩ := history_concat hrun e
    rw [hr, hruns] at hran
    rw [ha, hadds] at hadded
    rw [hs, hrestarts] at hrestarted
    rw [hd, hdeletes] at hdeleted
    exact .reading ⟨hv.timers.trans hu.timers, hv.memory.trans hu.memory, hv.phase.trans hu.phase⟩
      hran hadded hrestarted hdeleted
  | calling called hphase hle hb =>
    exact .calling called (hv.phase.trans hphase) hle
      (hb.still hrun hv.timers hv.memory hruns hadds hrestarts hdeletes)
  | resetting done rest hphase hdue hb =>
    exact .resetting done rest (hv.phase.trans hphase) hdue
      (hb.still hrun hv.timers hv.memory hruns hadds hrestarts hdeletes)

/-- `getExpired` splits the entries into those that are due and the others. -/
theorem inPass_split {s₀ u v : TimerQueue} {es : List Event} (h₀ : s₀.Sound)
    (hrun : run stepEvent s₀ es = some u) (hu : u.Holds s₀.timers s₀.memory (.reading s₀.clock))
    (hruns : s₀.ran es = []) (hadds : s₀.added es = []) (hrestarts : s₀.restarted es = [])
    (hdeletes : s₀.deleted es = [])
    (h : v.Holds (u.timers.above (sentry s₀.clock)) u.memory
      (.calling (u.timers.below (sentry s₀.clock)) 0)) :
    InPass s₀ (es ++ [.step .readTimerfd]) v := by
  obtain ⟨hran, hadded, hrestarted, hdeleted⟩ := history_concat hrun (.step .readTimerfd)
  rw [hruns] at hran
  rw [hadds] at hadded
  rw [hrestarts] at hrestarted
  rw [hdeletes] at hdeleted
  rw [hu.timers, hu.memory, h₀.below_eq] at h
  refine .calling 0 h.phase (Nat.zero_le _) ⟨hran, by rw [hrestarted]; rfl, hdeleted, ?_, ?_, ?_⟩
  · intro e he
    rw [hadded] at he
    cases he
  · rw [h.timers, h₀.above_eq, hadded, hrestarted]
    simp [addOf, restartOf]
  · intro e _
    rw [h.memory]

/-- A callback adds a timer. -/
theorem Books.add {s₀ u v : TimerQueue} {es : List Event} {called finished waiting : List Entry}
    (hb : Books s₀ u es called finished waiting) (hrun : run stepEvent s₀ es = some u) {timer : ℕ}
    {contents : Timer} {delay : ℕ} {phase : Phase} (hentry : timer ∉ u.timers.toList.map Entry.timer)
    (hdue : timer ∉ s₀.due.map Entry.timer) (hwaiting : timer ∉ waiting.map Entry.timer)
    (h : v.Holds (u.timers.insert (.make contents.expiration timer))
      (Function.update u.memory timer contents) phase) :
    Books s₀ v (es ++ [.step (.addTimerInLoop timer contents delay)]) called finished waiting := by
  obtain ⟨hran, hadded, hrestarted, hdeleted⟩ :=
    history_concat hrun (.step (.addTimerInLoop timer contents delay))
  simp only [runOf, addOf, restartOf, deleteOf, List.append_nil] at hran hadded hrestarted hdeleted
  constructor
  · rw [hran]
    exact hb.runs
  · rw [hrestarted]
    exact hb.restarts
  · rw [hdeleted]
    exact hb.deletes
  · intro e he
    rw [hadded] at he
    rcases List.mem_append.1 he with he | he
    · exact hb.adds e he
    · rw [List.mem_singleton.1 he]
      exact hdue
  · rw [h.timers, hadded, hrestarted]
    refine (insert_make_perm _ hentry).trans ((hb.timers.cons _).trans ?_)
    rw [← List.append_assoc, List.append_assoc _ [_]]
    exact List.perm_middle.symm
  · intro e he
    have hne : e.timer ≠ timer := fun heq => hwaiting (heq ▸ List.mem_map_of_mem he)
    rw [h.memory, Function.update_of_ne hne]
    exact hb.memory e he

/-- The next callback is called. -/
theorem Books.call {s₀ u v : TimerQueue} {es : List Event} {called : ℕ} {waiting : List Entry}
    (hb : Books s₀ u es (s₀.due.take called) [] waiting) (hrun : run stepEvent s₀ es = some u)
    (hphase : u.phase = .calling s₀.due called) (hlt : called < s₀.due.length) {phase : Phase}
    (h : v.Holds u.timers u.memory phase) :
    Books s₀ v (es ++ [.step .run]) (s₀.due.take (called + 1)) [] waiting := by
  obtain ⟨hran, hadded, hrestarted, hdeleted⟩ := history_concat hrun (.step .run)
  simp only [runOf, hphase, List.getElem?_eq_getElem hlt] at hran
  simp only [addOf, restartOf, deleteOf, List.append_nil] at hadded hrestarted hdeleted
  constructor
  · rw [hran, hb.runs, List.take_succ_eq_append_getElem hlt, List.map_append]
    rfl
  · rw [hrestarted]
    exact hb.restarts
  · rw [hdeleted]
    exact hb.deletes
  · rw [hadded]
    exact hb.adds
  · rw [hadded, hrestarted, h.timers]
    exact hb.timers
  · rw [h.memory]
    exact hb.memory

/-- A periodic timer is restarted and inserted again. -/
theorem Books.restart {s₀ u v : TimerQueue} {es : List Event} {called done rest : List Entry}
    {e : Entry} (hb : Books s₀ u es called done (e :: rest)) (hrun : run stepEvent s₀ es = some u)
    (hphase : u.phase = .resetting (e :: rest)) (hrepeat : (u.memory e.timer).repeat_ = true)
    (hentry : e.timer ∉ u.timers.toList.map Entry.timer)
    (hrest : e.timer ∉ rest.map Entry.timer) {phase : Phase}
    (h : v.Holds (u.timers.insert (.make (addTime u.clock (u.memory e.timer).interval) e.timer))
      (Function.update u.memory e.timer ((u.memory e.timer).restart u.clock)) phase) :
    Books s₀ v (es ++ [.step .restart]) called (done ++ [e]) rest := by
  have hsame : u.memory e.timer = s₀.memory e.timer := hb.memory e List.mem_cons_self
  have hperiodic : s₀.periodic e = true := by
    unfold periodic
    rw [← hsame]
    exact hrepeat
  obtain ⟨hran, hadded, hrestarted, hdeleted⟩ := history_concat hrun (.step .restart)
  simp only [restartOf, deleteOf, hphase, hrepeat, if_true, List.append_nil] at hrestarted hdeleted
  simp only [runOf, addOf, List.append_nil] at hran hadded
  constructor
  · rw [hran]
    exact hb.runs
  · rw [hrestarted, List.map_append, hb.restarts, List.filter_append, List.map_append]
    simp [hperiodic]
  · rw [hdeleted, hb.deletes, List.filter_append]
    simp [hperiodic]
  · rw [hadded]
    exact hb.adds
  · rw [h.timers, hadded, hrestarted, List.map_append, ← List.append_assoc]
    refine (insert_make_perm _ hentry).trans ((hb.timers.cons _).trans ?_)
    rw [hsame]
    exact (List.perm_append_singleton _ _).symm
  · intro f hf
    have hne : f.timer ≠ e.timer := fun heq => hrest (heq ▸ List.mem_map_of_mem hf)
    rw [h.memory, Function.update_of_ne hne]
    exact hb.memory f (List.mem_cons_of_mem _ hf)

/-- A timer that is not periodic is deleted. -/
theorem Books.delete {s₀ u v : TimerQueue} {es : List Event} {called done rest : List Entry}
    {e : Entry} (hb : Books s₀ u es called done (e :: rest)) (hrun : run stepEvent s₀ es = some u)
    (hphase : u.phase = .resetting (e :: rest)) (hrepeat : (u.memory e.timer).repeat_ = false)
    {phase : Phase} (h : v.Holds u.timers u.memory phase) :
    Books s₀ v (es ++ [.step .restart]) called (done ++ [e]) rest := by
  have hperiodic : s₀.periodic e = false := by
    unfold periodic
    rw [← hb.memory e List.mem_cons_self]
    exact hrepeat
  obtain ⟨hran, hadded, hrestarted, hdeleted⟩ := history_concat hrun (.step .restart)
  simp only [restartOf, deleteOf, hphase, hrepeat, Bool.false_eq_true, if_false, List.append_nil]
    at hrestarted hdeleted
  simp only [runOf, addOf, List.append_nil] at hran hadded
  constructor
  · rw [hran]
    exact hb.runs
  · rw [hrestarted, hb.restarts, List.filter_append]
    simp [hperiodic]
  · rw [hdeleted, hb.deletes, List.filter_append, List.map_append]
    simp [hperiodic]
  · rw [hadded]
    exact hb.adds
  · rw [hadded, hrestarted, h.timers]
    exact hb.timers
  · intro f hf
    rw [h.memory]
    exact hb.memory f (List.mem_cons_of_mem _ hf)

theorem notMem_alive {s : TimerQueue} {timer : ℕ} (h : timer ∉ s.alive) :
    timer ∉ s.timers.toList.map Entry.timer ∧ timer ∉ s.phase.held.map Entry.timer := by
  unfold TimerQueue.alive at h
  rwa [List.map_append, List.mem_append, not_or] at h

/-- A held timer is not an entry, and is held once. -/
theorem Keyed.resetting {s : TimerQueue} (hs : s.Keyed) {e : Entry} {rest : List Entry}
    (hphase : s.phase = .resetting (e :: rest)) :
    e.timer ∉ s.timers.toList.map Entry.timer ∧ e.timer ∉ rest.map Entry.timer := by
  have halive := hs.alive
  unfold TimerQueue.alive at halive
  rw [hphase, List.map_append] at halive
  obtain ⟨-, hheld, hdisjoint⟩ := List.nodup_append.1 halive
  exact ⟨fun hin => hdisjoint _ hin _ List.mem_cons_self rfl, (List.nodup_cons.1 hheld).1⟩

/-- Every event but the last one stays inside the pass. -/
theorem inPass_step {s₀ u v : TimerQueue} {es : List Event} {e : Event} (h₀ : s₀.Sound)
    (hrun : run stepEvent s₀ es = some u) (hu : u.Keyed) (hs : InPass s₀ es u)
    (hstep : stepEvent u e = some v) (hlast : ∀ delay, e ≠ .step (.endReset delay)) :
    InPass s₀ (es ++ [e]) v := by
  cases e with
  | setClock now =>
    cases hstep
    exact hs.still hrun ⟨rfl, rfl, rfl⟩ rfl rfl rfl rfl
  | step l =>
    cases stepTo_of_step hstep with
    | tick now h => exact hs.still hrun h rfl rfl rfl rfl
    | expire h => exact hs.still hrun h rfl rfl rfl rfl
    | addTimerInLoop timer contents delay houtside hnew h =>
      obtain ⟨hentry, hheld⟩ := notMem_alive hnew
      cases hs with
      | reading hu =>
        rw [hu.phase] at houtside
        exact houtside.elim
      | calling called hphase hle hb =>
        rw [hphase] at hheld
        exact .calling called (h.phase.trans hphase) hle (hb.add hrun hentry hheld hheld h)
      | resetting done rest hphase =>
        rw [hphase] at houtside
        exact houtside.elim
    | handleRead hphase => exact absurd hphase hs.busy
    | readTimerfd now hphase h =>
      cases hs with
      | reading hu hruns hadds hrestarts hdeletes =>
        cases hphase.symm.trans hu.phase
        exact inPass_split h₀ hrun hu hruns hadds hrestarts hdeletes h
      | calling called hp => cases hphase.symm.trans hp
      | resetting done rest hp => cases hphase.symm.trans hp
    | run expired called hphase hlt h =>
      cases hs with
      | reading hu => cases hphase.symm.trans hu.phase
      | calling called' hp hle hb =>
        cases hphase.symm.trans hp
        exact .calling (called + 1) h.phase hlt (hb.call hrun hp hlt h)
      | resetting done rest hp => cases hphase.symm.trans hp
    | endCalling expired hphase h =>
      cases hs with
      | reading hu => cases hphase.symm.trans hu.phase
      | calling called hp hle hb =>
        cases hphase.symm.trans hp
        rw [List.take_length] at hb
        exact .resetting [] s₀.due h.phase rfl
          (hb.still hrun h.timers h.memory rfl rfl rfl rfl)
      | resetting done rest hp => cases hphase.symm.trans hp
    | restart e rest hphase hrepeat h =>
      obtain ⟨hentry, hrest⟩ := hu.resetting hphase
      cases hs with
      | reading hu => cases hphase.symm.trans hu.phase
      | calling called hp => cases hphase.symm.trans hp
      | resetting done rest' hp hdue hb =>
        cases hphase.symm.trans hp
        refine .resetting (done ++ [e]) rest h.phase ?_
          (hb.restart hrun hphase hrepeat hentry hrest h)
        rw [hdue, List.append_assoc]
        rfl
    | delete e rest hphase hrepeat h =>
      cases hs with
      | reading hu => cases hphase.symm.trans hu.phase
      | calling called hp => cases hphase.symm.trans hp
      | resetting done rest' hp hdue hb =>
        cases hphase.symm.trans hp
        refine .resetting (done ++ [e]) rest h.phase ?_ (hb.delete hrun hphase hrepeat h)
        rw [hdue, List.append_assoc]
        rfl
    | endReset delay => exact absurd rfl (hlast delay)

/-- The events of a pass, up to the end of `reset`. -/
theorem inPass_run {s₀ u v : TimerQueue} {es pass : List Event} (h₀ : s₀.Sound)
    (hrun : run stepEvent s₀ es = some u) (hu : u.Sound) (hs : InPass s₀ es u)
    (haddress : ∀ e ∈ pass, e.Addressable) (hpass : ∀ delay, .step (.endReset delay) ∉ pass)
    (h : run stepEvent u pass = some v) :
    run stepEvent s₀ (es ++ pass) = some v ∧ v.Sound ∧ InPass s₀ (es ++ pass) v := by
  induction pass generalizing es u with
  | nil =>
    cases h
    rw [List.append_nil]
    exact ⟨hrun, hu, hs⟩
  | cons e pass ih =>
    obtain ⟨w, hw, hrest⟩ := run_cons_eq_some.1 h
    have hlast : ∀ delay, e ≠ .step (.endReset delay) := by
      rintro delay rfl
      exact hpass delay List.mem_cons_self
    rw [List.append_cons]
    refine ih (run_concat_eq_some.2 ⟨u, hrun, hw⟩)
      (sound_stepEvent hu (haddress e List.mem_cons_self) hw)
      (inPass_step h₀ hrun hu.toKeyed hs hw hlast)
      (fun f hf => haddress f (List.mem_cons_of_mem _ hf))
      (fun delay hd => hpass delay (List.mem_cons_of_mem _ hd)) hrest

theorem sound_run {clock : TimeStamp} {memory : ℕ → Timer} {es : List Event} {s : TimerQueue}
    (haddress : ∀ e ∈ es, e.Addressable) (h : run stepEvent (construct clock memory) es = some s) :
    s.Sound :=
  run_preserves_of_labels (C := Event.Addressable) (fun _ _ _ hs he hstep => sound_stepEvent hs he hstep)
    (sound_construct clock memory) haddress h

/-! ### The end of a pass -/

theorem resetting_returns {rest : List Entry} {s : TimerQueue} (h : s.phase = .resetting rest) :
    ∃ ls t, run step s ls = some t ∧ t.phase = .idle := by
  induction rest generalizing s with
  | nil => exact ⟨[.endReset 0], { s.endReset 0 with phase := .idle }, by simp [run, step, h], rfl⟩
  | cons e rest ih =>
    obtain ⟨ls, t, ht, hidle⟩ := ih (s := { s.restart e with phase := .resetting rest }) rfl
    exact ⟨.restart :: ls, t, by simp [run_cons, step, h, ht], hidle⟩

theorem calling_returns {expired : List Entry} {n called : ℕ} {s : TimerQueue}
    (h : s.phase = .calling expired called) (hn : called + n = expired.length) :
    ∃ ls t, run step s ls = some t ∧ t.phase = .idle := by
  induction n generalizing s called with
  | zero =>
    obtain ⟨ls, t, ht, hidle⟩ := resetting_returns (s := { s with phase := .resetting expired }) rfl
    exact ⟨.endCalling :: ls, t, by simp [run_cons, step, h, ← hn, ht], hidle⟩
  | succ n ih =>
    have hlt : called < expired.length := by omega
    obtain ⟨ls, t, ht, hidle⟩ :=
      ih (s := { s with phase := .calling expired (called + 1) }) rfl (by omega)
    exact ⟨.run :: ls, t, by simp [run_cons, step, h, hlt, ht], hidle⟩

/-- Whatever the callbacks have done, a pass can be brought to its end. -/
theorem InPass.returns {s₀ u : TimerQueue} {es : List Event} (h : InPass s₀ es u) :
    ∃ ls t, run step u ls = some t ∧ t.phase = .idle := by
  cases h with
  | reading h =>
    obtain ⟨ls, t, ht, hidle⟩ := calling_returns (s := { (u.readTimerfd.getExpired s₀.clock).2 with
      phase := .calling (u.readTimerfd.getExpired s₀.clock).1 0 }) rfl (Nat.zero_add _)
    exact ⟨.readTimerfd :: ls, t, by simp [run_cons, step, h.phase, ht], hidle⟩
  | calling called hphase hle => exact calling_returns hphase (Nat.add_sub_cancel' hle)
  | resetting done rest hphase => exact resetting_returns hphase

/-! ### One call of `handleRead` -/

/-- The pass `es` from `s` to `t` handled the timers that were due in `s`, and no others. -/
structure Expiry (s t : TimerQueue) (es : List Event) : Prop where
  due : s.due = s.timers.toList.filter fun e => (s.memory e.timer).expiration ≤ s.clock
  ordered : s.due.Pairwise fun e f => (s.memory e.timer).expiration ≤ (s.memory f.timer).expiration
  nodup : (s.due.map Entry.timer).Nodup
  ran : s.ran es = s.due.map Entry.timer
  restarted : (s.restarted es).map Prod.snd = (s.due.filter s.periodic).map Entry.timer
  deleted : s.deleted es = (s.due.filter fun e => !s.periodic e).map Entry.timer
  added : ∀ e ∈ s.added es, e.timer ∉ s.ran es
  timers : t.timers.toList.Perm
    (s.later ++ s.added es ++ (s.restarted es).map s.rearmed)
  gone : ∀ timer ∈ s.deleted es, timer ∉ t.timers.toList.map Entry.timer
  keyed : ∀ e ∈ t.timers.toList, (t.memory e.timer).expiration = e.when
  distinct : (t.timers.toList.map Entry.timer).Nodup

theorem Keyed.due_eq {s : TimerQueue} (hs : s.Keyed) :
    s.due = s.timers.toList.filter fun e => (s.memory e.timer).expiration ≤ s.clock :=
  List.filter_congr fun e he => by rw [hs.keyed e he]

theorem Keyed.mem_due {s : TimerQueue} {e : Entry} (h : e ∈ s.due) :
    e ∈ s.timers.toList ∧ e.when ≤ s.clock := by
  obtain ⟨hmem, hwhen⟩ := List.mem_filter.1 h
  exact ⟨hmem, of_decide_eq_true hwhen⟩

/-- The timers that were deleted are not among those left behind. -/
theorem Books.gone {s₀ u : TimerQueue} {es : List Event} {called waiting : List Entry}
    (h₀ : s₀.Keyed) (hb : Books s₀ u es called s₀.due waiting) :
    ∀ timer ∈ s₀.deleted es, timer ∉ u.timers.toList.map Entry.timer := by
  intro timer hdeleted hin
  rw [hb.deletes] at hdeleted
  obtain ⟨e, he, rfl⟩ := List.mem_map.1 hdeleted
  obtain ⟨hdue, honce⟩ := List.mem_filter.1 he
  obtain ⟨hmem, hwhen⟩ := Keyed.mem_due hdue
  obtain ⟨f, hf, htimer⟩ := List.mem_map.1 hin
  rcases List.mem_append.1 (hb.timers.mem_iff.1 hf) with hf | hf
  · rcases List.mem_append.1 hf with hlater | hadded
    · obtain ⟨hfmem, hfwhen⟩ := List.mem_filter.1 hlater
      obtain rfl := h₀.eq_of_timer hfmem hmem htimer
      exact absurd hwhen (not_le.2 (of_decide_eq_true hfwhen))
    · exact hb.adds f hadded (htimer ▸ List.mem_map_of_mem hdue)
  · -- a timer that was restarted is periodic
    obtain ⟨r, hr, rfl⟩ := List.mem_map.1 hf
    have hperiodic : r.2 ∈ (s₀.due.filter s₀.periodic).map Entry.timer :=
      hb.restarts ▸ List.mem_map_of_mem hr
    obtain ⟨g, hg, hgtimer⟩ := List.mem_map.1 hperiodic
    obtain ⟨hgdue, hg⟩ := List.mem_filter.1 hg
    obtain rfl := h₀.eq_of_timer (Keyed.mem_due hgdue).1 hmem (hgtimer.trans htimer)
    rw [hg] at honce
    cases honce

/-- **One timer expiry is exact.**  In any reachable state, a call of `handleRead` runs the timers
whose expiration is not later than the clock shows, each once and in the order of their expirations;
it deletes those that are not periodic, each once; and it leaves behind the timers that were not
due, those that the callbacks added, none of which it ran, and the periodic ones at the time of
their restart and their interval. -/
theorem expiry_exact {clock : TimeStamp} {memory : ℕ → Timer} {es pass : List Event} {delay : ℕ}
    {s t : TimerQueue} (haddress : ∀ e ∈ es ++ pass, e.Addressable)
    (hs : run stepEvent (construct clock memory) es = some s)
    (hpass : ∀ d, .step (.endReset d) ∉ pass)
    (ht : run stepEvent s (.step .handleRead :: pass ++ [.step (.endReset delay)]) = some t) :
    Expiry s t (.step .handleRead :: pass ++ [.step (.endReset delay)]) := by
  have h₀ : s.Sound := sound_run (fun e he => haddress e (List.mem_append_left _ he)) hs
  obtain ⟨u, hu, hend⟩ := run_append_eq_some.1 ht
  obtain ⟨v, hv, hrest⟩ := run_cons_eq_some.1 hu
  have hone : run stepEvent s [.step .handleRead] = some v := run_cons_eq_some.2 ⟨v, hv, rfl⟩
  have hbegin : InPass s [.step .handleRead] v := by
    have hnil : run stepEvent s [] = some s := rfl
    obtain ⟨hran, hadded, hrestarted, hdeleted⟩ := history_concat hnil (.step .handleRead)
    cases stepTo_of_step (l := .handleRead) hv with
    | handleRead hphase h => exact .reading h hran hadded hrestarted hdeleted
  have hv' : v.Sound := sound_stepEvent (e := .step .handleRead) h₀ trivial hv
  obtain ⟨hrun, hsound, hin⟩ := inPass_run h₀ hone hv' hbegin
    (fun e he => haddress e (List.mem_append_right _ he)) hpass hrest
  obtain ⟨w, hw, hwt⟩ := run_cons_eq_some.1 hend
  cases hwt
  have hkeyed : t.Keyed :=
    (sound_stepEvent (e := .step (.endReset delay)) hsound trivial hw).toKeyed
  cases stepTo_of_step (l := .endReset delay) hw with
  | endReset _ hphase h =>
    cases hin with
    | reading hu => cases hphase.symm.trans hu.phase
    | calling called hp => cases hphase.symm.trans hp
    | resetting done rest hp hdue hb =>
      cases hphase.symm.trans hp
      rw [List.append_nil] at hdue
      subst hdue
      have hbooks := hb.still hrun h.timers h.memory (e := .step (.endReset delay)) rfl rfl rfl rfl
      refine ⟨h₀.due_eq, ?_, h₀.due_nodup, hbooks.runs, hbooks.restarts, hbooks.deletes, ?_,
        hbooks.timers, hbooks.gone h₀.toKeyed, hkeyed.keyed, ?_⟩
      · refine s.due_ordered.imp_of_mem fun {e f} he hf hle => ?_
        rwa [h₀.keyed e (Keyed.mem_due he).1, h₀.keyed f (Keyed.mem_due hf).1]
      · exact fun e he hin => hbooks.adds e he (hbooks.runs ▸ hin)
      · have halive := hkeyed.alive
        unfold TimerQueue.alive at halive
        rw [List.map_append] at halive
        exact (List.nodup_append.1 halive).1

/-- Two timers are due, one of them periodic, and a third one is due one microsecond later. -/
def twoDue : List Event :=
  [.step (.addTimerInLoop 1 ⟨1000, 500, true⟩ 0), .step (.addTimerInLoop 2 ⟨1000, 0, false⟩ 0),
    .step (.addTimerInLoop 3 ⟨1001, 0, false⟩ 0), .setClock 1000]

/-- The first callback adds a timer that is overdue, and time passes before the restart. -/
def twoExpire : List Event :=
  [.step .readTimerfd, .step .run, .step (.addTimerInLoop 4 ⟨900, 0, false⟩ 0), .step .run,
    .step .endCalling, .step (.tick 1003), .step .restart, .step .restart]

theorem expiry_exact_two :
    ∃ s t, run stepEvent (construct 0 fun _ => ⟨0, 0, false⟩) twoDue = some s ∧
      run stepEvent s (.step .handleRead :: twoExpire ++ [.step (.endReset 2)]) = some t ∧
      s.due = [.make 1000 1, .make 1000 2] ∧
      t.timers.toList = [.make 900 4, .make 1001 3, .make 1503 1] ∧
      Expiry s t (.step .handleRead :: twoExpire ++ [.step (.endReset 2)]) := by
  have hs : run stepEvent (construct 0 fun _ => ⟨0, 0, false⟩) twoDue = some _ := rfl
  refine ⟨_, _, hs, rfl, by decide, by decide, ?_⟩
  exact expiry_exact (by decide) hs (by simp [twoExpire]) rfl

end TimerQueue

end TinyNetwork
