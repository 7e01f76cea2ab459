import TinyNetwork.Mysql.PoolAccounting

/-!
# Waiting for a connection

A thread in `getConnection` waits on `cond_` while there is no idle connection.  `produceConnection`
and `getConnection` call `notify_all`; the deleter, which gives a connection back, does not.

`waiters_notified_iff`: a thread is left waiting beside an idle connection exactly when a deleter
runs while it waits.
-/

namespace TinyNetwork

open Lts

namespace ConnectionPool

/-- No thread has been waiting without a notification. -/
def NoneUnnotified (s : ConnectionPool) : Prop := ∀ c, s.callers c ≠ .waiting false

/-- With an idle connection nobody waits for a notification. -/
def WaitersNotified (s : ConnectionPool) : Prop := s.connQueue ≠ [] → s.NoneUnnotified

/-- A deleter runs only while nobody waits for a notification. -/
def ReleasesUnwaited (s : ConnectionPool) : Label → Prop
  | .release _ _ _ => s.NoneUnnotified
  | _ => True

theorem noneUnnotified_notifyAll (s : ConnectionPool) : s.notifyAll.NoneUnnotified := by
  intro c
  simp only [notifyAll]
  cases s.callers c <;> simp

theorem waitersNotified_getConnection (s : ConnectionPool) (c : ClientId) :
    (s.getConnection c).WaitersNotified := by
  unfold ConnectionPool.getConnection
  cases s.connQueue with
  | nil => exact fun hne => absurd rfl hne
  | cons conn rest => exact fun _ => noneUnnotified_notifyAll _

/-- The recycler leaves a connection only where there was one. -/
theorem connQueue_of_recycleConnection {s : ConnectionPool} {now : ℕ → ℤ}
    (h : (s.recycleConnection now).connQueue ≠ []) : s.connQueue ≠ [] := by
  intro hnil
  simp [ConnectionPool.recycleConnection, hnil, recycleLoop] at h

theorem callers_construct (minSize maxSize maxIdleTime : ℤ) (answers : ℕ → Bool × ℤ) (c : ClientId) :
    (construct minSize maxSize maxIdleTime answers).callers c = .idle := by
  unfold construct
  induction minSize.toNat with
  | zero => rfl
  | succ n ih => exact ih

/-- A step leaves the waiting threads notified, unless it is a deleter that runs while one waits. -/
theorem waitersNotified_step {s t : ConnectionPool} {l : Label} (hs : s.WaitersNotified)
    (h : step s l = some t) : t.WaitersNotified ↔ s.ReleasesUnwaited l := by
  cases stepTo_of_step h with
  | getConnection c => exact iff_of_true (s.waitersNotified_getConnection c) trivial
  | wake c => exact iff_of_true (s.waitersNotified_getConnection c) trivial
  | release c conn now hmem =>
    -- the queue is not empty any more, and nobody is notified
    have hidle : (s.release c conn now).connQueue ≠ [] := by simp [ConnectionPool.release]
    exact ⟨fun hnotified => hnotified hidle, fun hnone _ => hnone⟩
  | produces connected now hadds => exact iff_of_true (fun _ => noneUnnotified_notifyAll _) trivial
  | rests connected now hrests => exact iff_of_true hs trivial
  | recycleConnection now =>
    exact iff_of_true (fun hne => hs (connQueue_of_recycleConnection hne)) trivial

/-- **No waiter sleeps past a returned connection**, in any state of a run, if and only if no
deleter of the run gives a connection back while a thread waits for a notification. -/
theorem waiters_notified_iff (minSize maxSize maxIdleTime : ℤ) (answers : ℕ → Bool × ℤ)
    {ls : List Label} {s : ConnectionPool}
    (h : run step (construct minSize maxSize maxIdleTime answers) ls = some s) :
    (∀ ms u, ms <+: ls → run step (construct minSize maxSize maxIdleTime answers) ms = some u →
        u.WaitersNotified) ↔
      Along step ReleasesUnwaited (construct minSize maxSize maxIdleTime answers) ls := by
  refine forall_prefix_iff_along (I := fun _ => True) (fun _ _ _ _ _ => trivial)
    (fun u l t _ hu hstep => waitersNotified_step hu hstep) trivial (fun _ c hc => ?_) h
  rw [callers_construct] at hc
  cases hc

/-- A second thread waits, another connection is made for it, and the first one comes back before
the thread has woken up. -/
def madeForWaiter : List Label :=
  [.getConnection 1, .getConnection 2, .produceConnection true 5, .release 1 ⟨0, true, 0⟩ 7]

theorem waiters_notified_made :
    ∃ s, run step (construct 1 4 60 fun _ => (true, 0)) madeForWaiter = some s ∧
      s.connQueue = [⟨1, true, 5⟩, ⟨0, true, 7⟩] ∧ s.callers 2 = .waiting true ∧
      s.WaitersNotified := by
  have hrun : run step (construct 1 4 60 fun _ => (true, 0)) madeForWaiter = some _ := rfl
  refine ⟨_, hrun, rfl, rfl, (waiters_notified_iff 1 4 60 (fun _ => (true, 0)) hrun).2 ?_ _ _
    (List.prefix_refl _) hrun⟩
  exact (along_cons_of_step rfl).2 ⟨trivial, (along_cons_of_step rfl).2 ⟨trivial,
    (along_cons_of_step rfl).2 ⟨trivial, (along_cons_of_step rfl).2
      ⟨noneUnnotified_notifyAll _, trivial⟩⟩⟩⟩

/-- A second thread waits for the only connection; when it is given back nobody wakes the thread. -/
theorem waiter_sleeps_past_release :
    ∃ s, run step (construct 1 1 60 fun _ => (true, 0))
        [.getConnection 1, .getConnection 2, .release 1 ⟨0, true, 0⟩ 7] = some s ∧
      s.connQueue = [⟨0, true, 7⟩] ∧ s.callers 2 = .waiting false ∧ ¬ s.WaitersNotified := by
  refine ⟨_, rfl, rfl, rfl, fun hnotified => ?_⟩
  exact hnotified (by simp [ConnectionPool.release]) 2 rfl

end ConnectionPool

end TinyNetwork
