import TinyNetwork.Net.EventLoop

/-!
# Wakeups of an event loop

`queueInLoop` leaves out the `wakeup()` when the loop thread calls it outside of
`doPendingFunctors`.  In an event handler that is right, because the functors are swapped out before
the next poll.  Before `loop()` has started, or after it has returned, it is not: the loop then
enters its first poll with the functor pending and the eventfd at zero.

`no_lost_wakeup`: these calls are the only ones.  As long as the loop thread calls `queueInLoop` in
handlers and functors only, the loop is never blocked on a functor that nobody will wake it for.

Here `loop()` may be called again after it has returned (the label `none`).
-/

namespace TinyNetwork

open Lts

namespace EventLoop

variable {F : Type}

/-- One step, or the end of the code behind a call of `loop()`, which may be called again. -/
def stepAgain (s : EventLoop F) : Option (Label F) → Option (EventLoop F)
  | some l => step s l
  | none => if s.phase = .returned then some { s with phase := .idle } else none

/-- Is the thread between its `push_back` and its `wakeup()` after a step with label `l`, if it was
as `before` says? -/
def pushingAfter (t : Tid) (before : Bool) : Option (Label F) → Bool
  | some (.pushFrom u _) => if u = t then true else before
  | some (.wakeup u) => if u = t then false else before
  | _ => before

/-- After these steps the thread is in `queueInLoop`, behind its `push_back` and in front of its
`wakeup()`. -/
def pushing (t : Tid) (ls : List (Option (Label F))) : Bool := ls.foldl (pushingAfter t) false

/-- The loop thread calls `queueInLoop` only inside `loop()`: in a handler or in a functor. -/
def QueuesInside (s : EventLoop F) : Option (Label F) → Prop
  | some (.queueInLoop _) => s.phase = .handling ∨ s.phase = .functors
  | _ => True

instance (s : EventLoop F) (l : Option (Label F)) : Decidable (QueuesInside s l) := by
  unfold QueuesInside
  split <;> infer_instance

@[simp] theorem pushing_append (t : Tid) (ls : List (Option (Label F))) (l : Option (Label F)) :
    pushing t (ls ++ [l]) = pushingAfter t (pushing t ls) l := by
  rw [pushing, List.foldl_append]
  rfl

/-- Somebody will wake the loop: the eventfd is readable, or a thread is about to write to it. -/
def Woken (ls : List (Option (Label F))) (s : EventLoop F) : Prop :=
  0 < s.wakeupFd ∨ ∃ t, pushing t ls = true

/-- Pending functors are swapped out before the next poll, or somebody will wake the loop. -/
structure WakeInv (ls : List (Option (Label F))) (s : EventLoop F) : Prop where
  calling : s.phase = .swap ∨ s.phase = .functors → s.callingPendingFunctors = true
  woken : s.pendingFunctors ≠ [] → s.phase = .handling ∨ s.phase = .swap ∨ Woken ls s

theorem wakeInv_new : WakeInv [] (new : EventLoop F) :=
  ⟨fun h => h.elim (fun h => Phase.noConfusion h) fun h => Phase.noConfusion h,
    fun h => absurd rfl h⟩

/-- A step that is no `wakeup()` and takes nothing from the eventfd. -/
theorem Woken.mono {ls : List (Option (Label F))} {s t : EventLoop F} {l : Option (Label F)}
    (hs : Woken ls s) (hfd : s.wakeupFd ≤ t.wakeupFd) (hl : ∀ u, l ≠ some (.wakeup u)) :
    Woken (ls ++ [l]) t := by
  rcases hs with hpos | ⟨u, hu⟩
  · exact .inl (Nat.lt_of_lt_of_le hpos hfd)
  · refine .inr ⟨u, ?_⟩
    rw [pushing_append, hu]
    unfold pushingAfter
    split
    · split_ifs <;> rfl
    · rename_i v
      exact absurd rfl (hl v)
    · rfl

/-- A move that leaves the queue and the eventfd alone keeps the invariant. -/
theorem WakeInv.move {ls : List (Option (Label F))} {s t : EventLoop F} {l : Option (Label F)}
    (hs : WakeInv ls s) (hl : ∀ u, l ≠ some (.wakeup u))
    (hpending : t.pendingFunctors = s.pendingFunctors) (hfd : t.wakeupFd = s.wakeupFd)
    (hcalling : t.phase = .swap ∨ t.phase = .functors → t.callingPendingFunctors = true)
    (hphase : s.phase = .handling ∨ s.phase = .swap → t.phase = .handling ∨ t.phase = .swap) :
    WakeInv (ls ++ [l]) t := by
  refine ⟨hcalling, fun hne => ?_⟩
  rw [hpending] at hne
  rcases hs.woken hne with hh | hw | hwoken
  · exact (hphase (.inl hh)).imp_right .inl
  · exact (hphase (.inr hw)).imp_right .inl
  · exact .inr (.inr (hwoken.mono (Nat.le_of_eq hfd.symm) hl))

theorem wakeInv_step {ls : List (Option (Label F))} {s t : EventLoop F} {l : Option (Label F)}
    (hs : WakeInv ls s) (hl : s.QueuesInside l) (h : stepAgain s l = some t) :
    WakeInv (ls ++ [l]) t := by
  cases l with
  | none =>
    simp only [stepAgain] at h
    split_ifs at h with hp
    cases h
    exact hs.move (by simp) rfl rfl (by simp) (by simp [hp])
  | some l =>
    cases l with
    | startLoop =>
      simp only [stepAgain, step] at h
      split_ifs at h with hp
      cases h
      exact hs.move (by simp) rfl rfl (by simp) (by simp [hp])
    | test =>
      simp only [stepAgain, step] at h
      split_ifs at h with hp hq
      · cases h
        exact hs.move (by simp) rfl rfl (by simp) (by simp [hp])
      · cases h
        exact hs.move (by simp) rfl rfl (by simp) (by simp [hp])
    | poll active =>
      simp only [stepAgain, step] at h
      split_ifs at h with hp
      cases h
      exact hs.move (by simp) rfl rfl (by simp) (by simp)
    | handleRead =>
      -- the eventfd is read in a handler, in front of the swap
      simp only [stepAgain, step] at h
      split_ifs at h with hp
      cases h
      exact ⟨hs.calling, fun _ => .inl hp.1⟩
    | endHandling =>
      simp only [stepAgain, step] at h
      split_ifs at h with hp
      cases h
      exact hs.move (by simp) rfl rfl (by simp) (by simp)
    | swap =>
      simp only [stepAgain, step] at h
      split_ifs at h with hp
      cases h
      exact ⟨fun _ => hs.calling (.inl hp), fun hne => absurd rfl hne⟩
    | runFunctor =>
      simp only [stepAgain, step] at h
      split at h
      · split_ifs at h with hp
        cases h
        exact hs.move (by simp) rfl rfl hs.calling id
      · cases h
    | endFunctors =>
      simp only [stepAgain, step] at h
      split_ifs at h with hp
      cases h
      exact hs.move (by simp) rfl rfl (by simp) (by simp [hp.1])
    | queueInLoop f =>
      simp only [stepAgain, step] at h
      split_ifs at h with hp
      cases h
      have hphase : (s.queueInLoop f).phase = s.phase := (queueInLoop_pushed s f).phase
      rcases hl with hh | hf
      · refine ⟨fun hph => ?_, fun _ => .inl (hphase.trans hh)⟩
        rw [hphase, hh] at hph
        rcases hph with hph | hph <;> cases hph
      · -- a functor that queues another one wakes the loop
        have hcalling := hs.calling (.inr hf)
        simp only [EventLoop.queueInLoop, hcalling, if_true]
        exact ⟨fun _ => hcalling, fun _ => .inr (.inr (.inl (Nat.succ_pos _)))⟩
    | quitInLoop =>
      simp only [stepAgain, step] at h
      split_ifs at h
      cases h
      exact hs.move (by simp) rfl rfl hs.calling id
    | pushFrom t f =>
      simp only [stepAgain, step] at h
      split_ifs at h
      cases h
      refine ⟨hs.calling, fun _ => .inr (.inr (.inr ⟨t, ?_⟩))⟩
      simp [pushingAfter]
    | quitFrom t =>
      simp only [stepAgain, step] at h
      split_ifs at h
      cases h
      exact hs.move (by simp) rfl rfl hs.calling id
    | wakeup t =>
      simp only [stepAgain, step] at h
      split_ifs at h
      cases h
      exact ⟨hs.calling, fun _ => .inr (.inr (.inl (Nat.succ_pos _)))⟩

/-- **No lost wakeup.**  In every run from the construction of the loop in which the loop thread
calls `queueInLoop` only in handlers and functors, a loop that is blocked in its poll with functors
pending has a readable eventfd, or a thread is between its `push_back` and its `wakeup()`. -/
theorem no_lost_wakeup {ls : List (Option (Label F))} {s : EventLoop F}
    (hls : Along stepAgain QueuesInside new ls) (h : run stepAgain new ls = some s)
    (hpoll : s.phase = .poll) (hpending : s.pendingFunctors ≠ []) :
    0 < s.wakeupFd ∨ ∃ t, pushing t ls = true := by
  have hinv : WakeInv ls s :=
    run_induction_along wakeInv_new (fun _ _ _ _ hu hl hstep => wakeInv_step hu hl hstep) hls h
  rcases hinv.woken hpending with hh | hw | hwoken
  · rw [hpoll] at hh
    cases hh
  · rw [hpoll] at hw
    cases hw
  · exact hwoken

/-- A functor queues another one, and a second thread has not reached its `wakeup()` yet. -/
theorem no_lost_wakeup_requeue :
    ∃ s : EventLoop ℕ,
      run stepAgain new ([.startLoop, .pushFrom 1 5, .wakeup 1, .test, .poll true, .handleRead,
        .endHandling, .swap, .runFunctor, .queueInLoop 6, .endFunctors, .pushFrom 2 7,
        .test].map some) = some s ∧
      s.pendingFunctors = [6, 7] ∧
      (0 < s.wakeupFd ∨ ∃ t, pushing t ([Label.startLoop, .pushFrom 1 5, .wakeup 1, .test,
        .poll true, .handleRead, .endHandling, .swap, .runFunctor, .queueInLoop 6, .endFunctors,
        .pushFrom 2 7, .test].map some) = true) := by
  refine ⟨_, rfl, rfl, no_lost_wakeup ?_ rfl rfl (List.cons_ne_nil 6 [7])⟩
  decide

/-- The loop thread queues a functor before it calls `loop()`: the loop blocks with the functor
pending, and nobody will wake it. -/
theorem queued_before_loop :
    ∃ s : EventLoop ℕ,
      run stepAgain new ([.queueInLoop 5, .startLoop, .test].map some) = some s ∧
      s.phase = .poll ∧ s.pendingFunctors = [5] ∧ s.wakeupFd = 0 ∧
      ∀ t, pushing t ([Label.queueInLoop 5, .startLoop, .test].map some) = false :=
  ⟨_, rfl, rfl, rfl, rfl, fun _ => rfl⟩

end EventLoop

end TinyNetwork
