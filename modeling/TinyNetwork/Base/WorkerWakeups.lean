import TinyNetwork.Base.ThreadPool

/-!
# Do the workers sleep on work?

The pool with its condition variable: which workers are blocked in `cond_.wait` without a
notification.  `addTask` notifies one of them, if there is one, with the push; `stop()` notifies all
with the store of `running_`; a worker may also wake up for no reason (`wake`).  A worker that was
notified has to get the mutex again before it looks at the queue: that is the step `take` of the
pool.  Without the blocked workers every run is a run of the pool (`run_pool`).

`no_sleep_on_work`: while there is a task in the queue some worker that has not exited is not
blocked, and after `stop()` no worker is.
-/

namespace TinyNetwork

open Lts

structure WaitingPool where
  pool : ThreadPool
  blocked : ℕ → Bool := fun _ => false

namespace WaitingPool

/-- A step of the pool other than a push, a push with the worker that it notifies, or a spurious
wakeup. -/
inductive Label
  | pool (l : ThreadPool.Label)
  | push (t : ℕ) (woken : Option ℕ)
  | wake (i : ℕ)

def new (threadSize : ℕ) : WaitingPool := { pool := .new threadSize }

/-- `cond_.notify_one()`: it wakes one of the blocked workers, and none only if there is none. -/
def notifyOne (s : WaitingPool) : Option ℕ → Option (ℕ → Bool)
  | some i => if s.blocked i then some (Function.update s.blocked i false) else none
  | none => if ∀ i < s.pool.workers.length, s.blocked i = false then some s.blocked else none

/-- The blocked workers after a step of the pool. -/
def blockedAfter (s : WaitingPool) : ThreadPool.Label → ℕ → Bool
  | .take i =>
    if s.pool.queue = [] ∧ s.pool.running then Function.update s.blocked i true else s.blocked
  | .stop _ | .destroyStop => fun _ => false
  | _ => s.blocked

/-- A blocked worker does not look at the queue; a push comes with its notification. -/
def Enabled (s : WaitingPool) : ThreadPool.Label → Prop
  | .take i => s.blocked i = false
  | .push _ => False
  | _ => True

instance (s : WaitingPool) (l : ThreadPool.Label) : Decidable (s.Enabled l) := by
  cases l <;> unfold Enabled <;> infer_instance

def step (s : WaitingPool) : Label → Option WaitingPool
  | .pool l =>
    if s.Enabled l then
      (s.pool.step l).map fun pool => { pool := pool, blocked := s.blockedAfter l }
    else none
  | .push t woken =>
    (s.pool.step (.push t)).bind fun pool =>
      (s.notifyOne woken).map fun blocked => { pool := pool, blocked := blocked }
  | .wake i =>
    if s.blocked i then some { s with blocked := Function.update s.blocked i false } else none

/-- A worker that has not exited. -/
def Live (s : WaitingPool) (i : ℕ) : Prop := ∃ w, s.pool.workers[i]? = some w ∧ w ≠ .done

/-- While there is a task, some worker that has not exited is not blocked, if any is left. -/
def NoSleep (s : WaitingPool) : Prop :=
  s.pool.queue ≠ [] → (∃ i, s.Live i) → ∃ i, s.Live i ∧ s.blocked i = false

/-! ### The pool below -/

/-- The step of the pool. -/
def Label.pool? : Label → Option ThreadPool.Label
  | pool l => some l
  | push t _ => some (.push t)
  | wake _ => none

theorem step_pool {s t : WaitingPool} {l : Label} (h : step s l = some t) :
    run ThreadPool.step s.pool l.pool?.toList = some t.pool := by
  cases l with
  | pool l =>
    simp only [step] at h
    split_ifs at h
    obtain ⟨p, hp, rfl⟩ := Option.map_eq_some_iff.1 h
    exact run_cons_eq_some.2 ⟨p, hp, rfl⟩
  | push t woken =>
    obtain ⟨p, hp, hwoken⟩ := Option.bind_eq_some_iff.1 h
    obtain ⟨blocked, -, rfl⟩ := Option.map_eq_some_iff.1 hwoken
    exact run_cons_eq_some.2 ⟨p, hp, rfl⟩
  | wake i =>
    simp only [step] at h
    split_ifs at h
    cases h
    rfl

/-- Every run is a run of the pool. -/
theorem run_pool {s t : WaitingPool} {ls : List Label} (h : run step s ls = some t) :
    run ThreadPool.step s.pool (ls.filterMap Label.pool?) = some t.pool := by
  induction ls generalizing s with
  | nil =>
    cases h
    rfl
  | cons l ls ih =>
    obtain ⟨u, hu, hrest⟩ := run_cons_eq_some.1 h
    have hsplit : (l :: ls).filterMap Label.pool? = l.pool?.toList ++ ls.filterMap Label.pool? := by
      cases l <;> rfl
    rw [hsplit, run_append_eq_some]
    exact ⟨u.pool, step_pool hu, ih hrest⟩

/-! ### Nobody sleeps on work -/

/-- What holds in every state. -/
structure Inv (s : WaitingPool) : Prop where
  noSleep : s.NoSleep
  stopped : s.pool.running = false → ∀ i, s.blocked i = false
  taking : ∀ i, s.blocked i = true → s.pool.workers[i]? = some .taking

theorem inv_new (threadSize : ℕ) : (new threadSize).Inv :=
  ⟨fun hne => absurd rfl hne, fun _ _ => rfl, fun _ h => by cases h⟩

/-- Nobody is blocked. -/
theorem noSleep_of_awake {s : WaitingPool} (h : ∀ i, s.blocked i = false) : s.NoSleep :=
  fun _ ⟨i, hi⟩ => ⟨i, hi, h i⟩

/-- Some worker is at work. -/
theorem noSleep_of_worker {s : WaitingPool} {i : ℕ} {w : ThreadPool.Worker}
    (hworker : s.pool.workers[i]? = some w) (hw : w ≠ .done) (hi : s.blocked i = false) :
    s.NoSleep :=
  fun _ _ => ⟨i, ⟨w, hworker, hw⟩, hi⟩

/-- A worker that is not about to take a task is not blocked. -/
theorem Inv.awake {s : WaitingPool} (hs : s.Inv) {i : ℕ} {w : ThreadPool.Worker}
    (hworker : s.pool.workers[i]? = some w) (hw : w ≠ .taking) : s.blocked i = false := by
  by_contra hblocked
  have htaking := hs.taking i (by simpa using hblocked)
  rw [hworker] at htaking
  exact hw (Option.some.inj htaking)

/-- A worker that is not blocked may go on. -/
theorem Inv.taking_set {s : WaitingPool} (hs : s.Inv) {i : ℕ} (hi : s.blocked i = false)
    (w : ThreadPool.Worker) (j : ℕ) (hj : s.blocked j = true) :
    (s.pool.workers.set i w)[j]? = some .taking := by
  have hne : i ≠ j := by
    rintro rfl
    rw [hi] at hj
    cases hj
  rw [List.getElem?_set_ne hne]
  exact hs.taking j hj

/-- A step that touches neither the queue, the workers nor `running_`. -/
theorem Inv.same {s : WaitingPool} (hs : s.Inv) {pool : ThreadPool}
    (hqueue : pool.queue = s.pool.queue) (hworkers : pool.workers = s.pool.workers)
    (hrunning : pool.running = s.pool.running) : Inv { s with pool := pool } where
  noSleep := by
    unfold NoSleep Live
    simp only [hqueue, hworkers]
    exact hs.noSleep
  stopped h := hs.stopped (hrunning.symm.trans h)
  taking := by
    simp only [hworkers]
    exact hs.taking

theorem inv_take {s : WaitingPool} (hs : s.Inv) {i : ℕ} (hi : s.blocked i = false)
    (hworker : s.pool.workers[i]? = some .taking) :
    Inv { pool := s.pool.take i, blocked := s.blockedAfter (.take i) } := by
  have hlt : i < s.pool.workers.length := (List.getElem?_eq_some_iff.1 hworker).1
  unfold ThreadPool.take blockedAfter
  cases hqueue : s.pool.queue with
  | cons task rest =>
    simp only [reduceCtorEq, false_and, if_false]
    refine ⟨noSleep_of_worker (i := i) (w := .executing task) ?_ (by simp) hi, hs.stopped,
      hs.taking_set hi _⟩
    exact List.getElem?_set_self hlt
  | nil =>
    simp only [true_and]
    split_ifs with hrunning
    · -- the worker begins to wait, in front of an empty queue
      refine ⟨fun hne => absurd hqueue hne, fun h => ?_, fun j hj => ?_⟩
      · rw [hrunning] at h
        cases h
      · by_cases hji : j = i
        · rwa [hji]
        · exact hs.taking j ((Function.update_of_ne hji _ _).symm.trans hj)
    · exact ⟨fun hne => absurd hqueue hne, hs.stopped, hs.taking_set hi _⟩

/-- `notify_all`. -/
theorem inv_notifyAll (pool : ThreadPool) : Inv { pool := pool, blocked := fun _ => false } :=
  ⟨noSleep_of_awake fun _ => rfl, fun _ _ => rfl, fun _ h => by cases h⟩

theorem worker_of_take {s p : ThreadPool} {i : ℕ} (h : s.step (.take i) = some p) :
    s.workers[i]? = some .taking ∧ s.take i = p := by
  simp only [ThreadPool.step] at h
  split_ifs at h with hworker
  exact ⟨hworker, Option.some.inj h⟩

/-- A step of the pool, with what it does to the blocked workers. -/
theorem inv_pool {s t : WaitingPool} {l : ThreadPool.Label} (hs : s.Inv)
    (h : step s (.pool l) = some t) : t.Inv := by
  simp only [step] at h
  split_ifs at h with henabled
  obtain ⟨p, hp, rfl⟩ := Option.map_eq_some_iff.1 h
  cases ThreadPool.stepTo_of_step hp with
  | start => exact ⟨hs.noSleep, fun hrunning => (Bool.false_ne_true hrunning.symm).elim, hs.taking⟩
  | spawn =>
    have hnone : s.blocked s.pool.workers.length = false := by
      by_contra hblocked
      have htaking := hs.taking _ (by simpa using hblocked)
      simp at htaking
    refine ⟨noSleep_of_worker (i := s.pool.workers.length) (w := .test) (by simp) (by simp) hnone,
      hs.stopped, fun j hj => ?_⟩
    have hlt := (List.getElem?_eq_some_iff.1 (hs.taking j hj)).1
    exact (List.getElem?_append_left hlt).trans (hs.taking j hj)
  | startReturn | addTask | addReturn | destroyStopped | join => exact hs.same rfl rfl rfl
  | addDirectly t callable hworkers =>
    exact hs.same (s.pool.runDirectly_queue callable) (s.pool.runDirectly_workers callable)
      (s.pool.runDirectly_running callable)
  | stopCall | destroyRunning =>
    exact hs.same s.pool.called_queue s.pool.called_workers s.pool.called_running
  | push => cases henabled
  | stop | destroyStop => exact inv_notifyAll _
  | test i hworker =>
    have hi : s.blocked i = false := hs.awake hworker (by simp)
    have hlt := (List.getElem?_eq_some_iff.1 hworker).1
    refine ⟨?_, hs.stopped, hs.taking_set hi _⟩
    cases hrunning : s.pool.running with
    | true => exact noSleep_of_worker (List.getElem?_set_self hlt) (by simp) hi
    | false => exact noSleep_of_awake (hs.stopped hrunning)
  | take i | wait i | leave i =>
    obtain ⟨hworker, heq⟩ := worker_of_take hp
    rw [← heq]
    exact inv_take hs henabled hworker
  | execute i task hworker =>
    have hi : s.blocked i = false := hs.awake hworker (by simp)
    have hlt := (List.getElem?_eq_some_iff.1 hworker).1
    exact ⟨noSleep_of_worker (List.getElem?_set_self hlt) (by simp) hi, hs.stopped,
      hs.taking_set hi _⟩

/-- A blocked worker is woken up, whatever was pushed. -/
theorem Inv.wakeUp {s : WaitingPool} (hs : s.Inv) {i : ℕ} (hi : s.blocked i = true)
    {pool : ThreadPool} (hworkers : pool.workers = s.pool.workers)
    (hrunning : pool.running = s.pool.running) :
    Inv { pool := pool, blocked := Function.update s.blocked i false } := by
  have hle : ∀ j, Function.update s.blocked i false j = true → s.blocked j = true := by
    intro j hj
    by_cases hji : j = i
    · rwa [hji]
    · rwa [Function.update_of_ne hji] at hj
  refine ⟨noSleep_of_worker (i := i) (w := .taking) ?_ (by simp) (Function.update_self _ _ _),
    fun h j => ?_, fun j hj => ?_⟩
  · exact (congrArg (·[i]?) hworkers).trans (hs.taking i hi)
  · have hj := hs.stopped (hrunning.symm.trans h) j
    by_contra hblocked
    rw [hle j (by simpa using hblocked)] at hj
    cases hj
  · exact (congrArg (·[j]?) hworkers).trans (hs.taking j (hle j hj))

theorem inv_push {s t : WaitingPool} {tid : ℕ} {woken : Option ℕ} (hs : s.Inv)
    (h : step s (.push tid woken) = some t) : t.Inv := by
  obtain ⟨p, hp, hwoken⟩ := Option.bind_eq_some_iff.1 h
  obtain ⟨blocked, hnotify, rfl⟩ := Option.map_eq_some_iff.1 hwoken
  have hsame : p.workers = s.pool.workers ∧ p.running = s.pool.running := by
    cases ThreadPool.stepTo_of_step hp
    exact ⟨rfl, rfl⟩
  cases woken with
  | some i =>
    simp only [notifyOne] at hnotify
    split_ifs at hnotify with hi
    cases hnotify
    exact hs.wakeUp hi hsame.1 hsame.2
  | none =>
    simp only [notifyOne] at hnotify
    split_ifs at hnotify with hnone
    cases hnotify
    have hawake : ∀ i, s.blocked i = false := by
      intro i
      by_contra hblocked
      have htaking := hs.taking i (by simpa using hblocked)
      exact hblocked (hnone i (List.getElem?_eq_some_iff.1 htaking).1)
    exact ⟨noSleep_of_awake hawake, fun _ => hawake, fun i hi => by
      rw [hawake i] at hi
      cases hi⟩

theorem inv_step {s t : WaitingPool} {l : Label} (hs : s.Inv) (h : step s l = some t) : t.Inv := by
  cases l with
  | pool l => exact inv_pool hs h
  | push tid woken => exact inv_push hs h
  | wake i =>
    simp only [step] at h
    split_ifs at h with hi
    cases h
    exact hs.wakeUp hi rfl rfl

theorem inv_run {threadSize : ℕ} {ls : List Label} {s : WaitingPool}
    (h : run step (new threadSize) ls = some s) : s.Inv :=
  run_preserves (fun _ _ _ hs hstep => inv_step hs hstep) (inv_new threadSize) h

/-- Nothing but `start()` sets `running_`. -/
theorem running_of_step {p q : ThreadPool} {l : ThreadPool.Label} (hp : p.running = false)
    (hl : l ≠ .start) (h : p.step l = some q) : q.running = false := by
  cases ThreadPool.stepTo_of_step h with
  | start => exact absurd rfl hl
  | stopCall | destroyRunning => exact p.called_running.trans hp
  | addDirectly t callable hworkers => exact (p.runDirectly_running callable).trans hp
  | stop | destroyStop => rfl
  | _ => exact hp

theorem running_of_stop {p q : ThreadPool} {t : ℕ} (h : p.step (.stop t) = some q) :
    q.running = false := by
  cases ThreadPool.stepTo_of_step h
  rfl

theorem stopped_step {s t : WaitingPool} {l : Label} (hs : s.pool.running = false)
    (hl : l.pool? ≠ some .start) (h : step s l = some t) : t.pool.running = false := by
  refine run_preserves_of_labels (P := fun p => p.running = false) (C := fun l => l ≠ .start)
    (fun _ _ _ hp hne hstep => running_of_step hp hne hstep) hs (fun l' hl' hstart => hl ?_)
    (step_pool h)
  rw [← hstart]
  exact Option.mem_toList.1 hl'

/-- **No worker sleeps on work.**  In every state, with a task in the queue and a worker that has not
exited, some worker that has not exited is not blocked without a notification.  After `stop()` none
is, unless the pool is started afterwards. -/
theorem no_sleep_on_work {threadSize : ℕ} {ls : List Label} {s : WaitingPool}
    (h : run step (new threadSize) ls = some s) :
    (s.pool.queue ≠ [] → (∃ i, s.Live i) → ∃ i, s.Live i ∧ s.blocked i = false) ∧
      ∀ pre t post, ls = pre ++ .pool (.stop t) :: post → .pool .start ∉ post →
        ∀ i, s.blocked i = false := by
  refine ⟨(inv_run h).noSleep, ?_⟩
  rintro pre t post rfl hpost
  obtain ⟨u, v, -, hv, hafter⟩ := run_append_cons_eq_some.1 h
  have hstopped : v.pool.running = false := by
    obtain ⟨p, hp, hnil⟩ := run_cons_eq_some.1 (step_pool hv)
    rw [← Option.some.inj hnil]
    exact running_of_stop hp
  refine (inv_run h).stopped (run_preserves_of_labels (C := fun l => l.pool? ≠ some .start)
    (fun _ _ _ hs hl hstep => stopped_step hs hl hstep) hstopped (fun l hl hstart => hpost ?_) hafter)
  cases l with
  | pool l =>
    cases hstart
    exact hl
  | _ => cases hstart

/-- Two workers wait; a push wakes one of them, and the other one goes on waiting beside the task. -/
theorem no_sleep_on_work_pushed :
    ∃ s, run step (new 2) [.pool .start, .pool .spawn, .pool .spawn, .pool .startReturn,
        .pool (.test 0), .pool (.take 0), .pool (.test 1), .pool (.take 1),
        .pool (.addTask 7 true), .push 7 (some 1)] = some s ∧
      s.blocked 0 = true ∧ s.pool.queue ≠ [] ∧ ∃ i, s.Live i ∧ s.blocked i = false := by
  have hrun : run step (new 2) [.pool .start, .pool .spawn, .pool .spawn, .pool .startReturn,
      .pool (.test 0), .pool (.take 0), .pool (.test 1), .pool (.take 1),
      .pool (.addTask 7 true), .push 7 (some 1)] = some _ := rfl
  refine ⟨_, hrun, rfl, by simp, (no_sleep_on_work hrun).1 (by simp) ⟨0, .taking, rfl, by simp⟩⟩

end WaitingPool

end TinyNetwork
