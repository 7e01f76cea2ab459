import TinyNetwork.Lib.Run
import Mathlib.Logic.Function.Basic

/-!
# `class EventLoop` (src/net/EventLoop.h, src/net/EventLoop.cpp)

One event loop, the thread that runs it and the threads that call it.  A label is one step of one
thread; what a thread does under `mutex_`, and every load or store of an atomic flag, is a single
step.  The loop thread goes through the phases of `loop()`:

  `idle` → (`startLoop`) → `test` → `poll` → `handling` → `swap` → `functors` → `test` → …

and from `test` to `returned` when it reads `quit_`.  In `handling` it runs event handlers and in
`functors` the functors of the local batch; both are arbitrary code, which may call `queueInLoop`
and `quit` (labels `queueInLoop`, `quitInLoop`).  Other threads call `queueInLoop` by `pushFrom`
and then `wakeup`, and `quit` by `quitFrom` and then `wakeup`.

`enqueued` and `executed` are history: the functors in the order in which they were pushed under
the mutex, and in the order in which `doPendingFunctors` called them.
-/

namespace TinyNetwork

open Lts

/-- The name of a thread other than the loop thread. -/
abbrev Tid := ℕ

namespace EventLoop

/-- Where the loop thread is in `loop()`. -/
inductive Phase
  | idle
  | test
  | poll
  | handling
  | swap
  | functors
  | returned
  deriving DecidableEq

/-- Where another thread is in a call on the loop: outside of any, or in front of `wakeup()`. -/
inductive Caller
  | outside
  | waking
  deriving DecidableEq

/-- The steps. -/
inductive Label (F : Type)
  | startLoop
  | test
  | poll (wakeupActive : Bool)
  | handleRead
  | endHandling
  | swap
  | runFunctor
  | endFunctors
  | queueInLoop (f : F)
  | quitInLoop
  | pushFrom (t : Tid) (f : F)
  | quitFrom (t : Tid)
  | wakeup (t : Tid)
  deriving DecidableEq

end EventLoop

/-- The fields of the class, the position of the threads, and the history. -/
structure EventLoop (F : Type) where
  looping : Bool := false
  quit : Bool := false
  callingPendingFunctors : Bool := false
  pendingFunctors : List F := []
  wakeupFd : ℕ := 0
  phase : EventLoop.Phase := .idle
  wakeupActive : Bool := false
  functors : List F := []
  callers : Tid → EventLoop.Caller := fun _ => .outside
  enqueued : List F := []
  executed : List F := []

namespace EventLoop

variable {F : Type}

/-- The critical section of `queueInLoop`. -/
def push (s : EventLoop F) (f : F) : EventLoop F :=
  { s with pendingFunctors := s.pendingFunctors ++ [f], enqueued := s.enqueued ++ [f] }

/-- The loop thread runs code that is not its own: before `loop()`, in an event handler, in a
functor, or after `loop()`. -/
def InUserCode (s : EventLoop F) : Prop :=
  s.phase = .idle ∨ s.phase = .handling ∨ s.phase = .functors ∨ s.phase = .returned

instance (s : EventLoop F) : Decidable s.InUserCode := by
  unfold InUserCode
  infer_instance

/-- `queueInLoop(f)` called by the loop thread: `wakeup()` only while functors are executed. -/
def queueInLoop (s : EventLoop F) (f : F) : EventLoop F :=
  if s.callingPendingFunctors then { s.push f with wakeupFd := s.wakeupFd + 1 } else s.push f

/-- One step. -/
def step (s : EventLoop F) : Label F → Option (EventLoop F)
  | .startLoop =>
    if s.phase = .idle then some { s with looping := true, quit := false, phase := .test }
    else none
  | .test =>
    if s.phase = .test then
      if s.quit then some { s with looping := false, phase := .returned }
      else some { s with phase := .poll }
    else none
  | .poll active =>
    if s.phase = .poll ∧ (active = true → 0 < s.wakeupFd) then
      some { s with phase := .handling, wakeupActive := active }
    else none
  | .handleRead =>
    if s.phase = .handling ∧ s.wakeupActive = true then
      some { s with wakeupFd := 0, wakeupActive := false }
    else none
  | .endHandling =>
    if s.phase = .handling ∧ s.wakeupActive = false then
      some { s with phase := .swap, callingPendingFunctors := true }
    else none
  | .swap =>
    if s.phase = .swap then
      some { s with phase := .functors, functors := s.pendingFunctors, pendingFunctors := [] }
    else none
  | .runFunctor =>
    match s.functors with
    | f :: rest =>
      if s.phase = .functors then
        some { s with functors := rest, executed := s.executed ++ [f] }
      else none
    | [] => none
  | .endFunctors =>
    if s.phase = .functors ∧ s.functors = [] then
      some { s with phase := .test, callingPendingFunctors := false }
    else none
  | .queueInLoop f => if s.InUserCode then some (s.queueInLoop f) else none
  | .quitInLoop => if s.InUserCode then some { s with quit := true } else none
  | .pushFrom t f =>
    if s.callers t = .outside then
      some { s.push f with callers := Function.update s.callers t .waking }
    else none
  | .quitFrom t =>
    if s.callers t = .outside then
      some { s with quit := true, callers := Function.update s.callers t .waking }
    else none
  | .wakeup t =>
    if s.callers t = .waking then
      some { s with
        wakeupFd := s.wakeupFd + 1
        callers := Function.update s.callers t .outside }
    else none

/-- A fresh loop. -/
def new : EventLoop F := {}

/-! ### What one step can do -/

/-- `f` was pushed; the loop thread did not move. -/
structure Pushed (s t : EventLoop F) (f : F) : Prop where
  enqueued : t.enqueued = s.enqueued ++ [f]
  pending : t.pendingFunctors = s.pendingFunctors ++ [f]
  functors : t.functors = s.functors
  executed : t.executed = s.executed
  phase : t.phase = s.phase
  quit : t.quit = s.quit

/-- The pending functors became the local batch. -/
structure Swapped (s t : EventLoop F) : Prop where
  enqueued : t.enqueued = s.enqueued
  pending : t.pendingFunctors = []
  functors : t.functors = s.pendingFunctors
  executed : t.executed = s.executed
  phase : s.phase = .swap ∧ t.phase = .functors
  quit : t.quit = s.quit

/-- The first functor of the local batch was called. -/
structure Ran (s t : EventLoop F) (f : F) : Prop where
  enqueued : t.enqueued = s.enqueued
  pending : t.pendingFunctors = s.pendingFunctors
  functors : s.functors = f :: t.functors
  executed : t.executed = s.executed ++ [f]
  phase : s.phase = .functors ∧ t.phase = .functors
  quit : t.quit = s.quit

/-- The label is a call of `quit()`. -/
def Label.isQuit : Label F → Bool
  | .quitInLoop => true
  | .quitFrom _ => true
  | _ => false

/-- The moves of the loop thread that leave the queues alone. -/
inductive PhaseMove (s : EventLoop F) (l : Label F) (t : EventLoop F) : Prop
  | stay (h : t.phase = s.phase) (hq : l.isQuit = false → t.quit = s.quit)
  | start (h : s.phase = .idle ∧ t.phase = .test) (hq : t.quit = false)
  | test (h : s.phase = .test ∧ t.phase = .poll) (hq : s.quit = false) (hq' : t.quit = s.quit)
  | ret (h : s.phase = .test ∧ t.phase = .returned) (hq : s.quit = true) (hq' : t.quit = s.quit)
  | poll (h : s.phase = .poll ∧ t.phase = .handling) (hq' : t.quit = s.quit)
  | handled (h : s.phase = .handling ∧ t.phase = .swap) (hl : l = .endHandling)
      (hq' : t.quit = s.quit)
  | finish (h : s.phase = .functors ∧ t.phase = .test) (hf : s.functors = [])
      (hq' : t.quit = s.quit)

/-- The queues did not change. -/
structure Moved (s : EventLoop F) (l : Label F) (t : EventLoop F) : Prop where
  enqueued : t.enqueued = s.enqueued
  pending : t.pendingFunctors = s.pendingFunctors
  functors : t.functors = s.functors
  executed : t.executed = s.executed
  phase : PhaseMove s l t

theorem queueInLoop_pushed (s : EventLoop F) (f : F) : Pushed s (s.queueInLoop f) f := by
  unfold queueInLoop
  split_ifs <;> exact ⟨rfl, rfl, rfl, rfl, rfl, rfl⟩

/-- Every step pushes a functor, swaps, calls a functor, or leaves the queues alone. -/
theorem step_cases {s t : EventLoop F} {l : Label F} (h : step s l = some t) :
    (∃ f, l ≠ .swap ∧ l ≠ .runFunctor ∧ l ≠ .endFunctors ∧ Pushed s t f) ∨
    (l = .swap ∧ Swapped s t) ∨
    (l = .runFunctor ∧ ∃ f, Ran s t f) ∨
    (l ≠ .swap ∧ l ≠ .runFunctor ∧ (l = .endFunctors → s.functors = [] ∧ t.phase = .test) ∧
      Moved s l t) := by
  cases l with
  | startLoop =>
    simp only [step] at h
    split_ifs at h with hp
    cases h
    exact .inr (.inr (.inr ⟨by simp, by simp, by simp, rfl, rfl, rfl, rfl, .start ⟨hp, rfl⟩ rfl⟩))
  | test =>
    simp only [step] at h
    split_ifs at h with hp hq
    · cases h
      exact .inr (.inr (.inr ⟨by simp, by simp, by simp, rfl, rfl, rfl, rfl,
        .ret ⟨hp, rfl⟩ hq rfl⟩))
    · cases h
      exact .inr (.inr (.inr ⟨by simp, by simp, by simp, rfl, rfl, rfl, rfl,
        .test ⟨hp, rfl⟩ (by simpa using hq) rfl⟩))
  | poll active =>
    simp only [step] at h
    split_ifs at h with hp
    cases h
    exact .inr (.inr (.inr ⟨by simp, by simp, by simp, rfl, rfl, rfl, rfl, .poll ⟨hp.1, rfl⟩ rfl⟩))
  | handleRead | quitInLoop | quitFrom | wakeup =>
    simp only [step] at h
    split_ifs at h with hp
    cases h
    exact .inr (.inr (.inr ⟨by simp, by simp, by simp, rfl, rfl, rfl, rfl,
      .stay rfl (by simp [Label.isQuit])⟩))
  | endHandling =>
    simp only [step] at h
    split_ifs at h with hp
    cases h
    exact .inr (.inr (.inr ⟨by simp, by simp, by simp, rfl, rfl, rfl, rfl,
      .handled ⟨hp.1, rfl⟩ rfl rfl⟩))
  | swap =>
    simp only [step] at h
    split_ifs at h with hp
    cases h
    exact .inr (.inl ⟨rfl, rfl, rfl, rfl, rfl, ⟨hp, rfl⟩, rfl⟩)
  | runFunctor =>
    simp only [step] at h
    split at h
    · rename_i f rest hf
      split_ifs at h with hp
      cases h
      exact .inr (.inr (.inl ⟨rfl, f, rfl, rfl, hf, rfl, ⟨hp, hp⟩, rfl⟩))
    · cases h
  | endFunctors =>
    simp only [step] at h
    split_ifs at h with hp
    cases h
    exact .inr (.inr (.inr ⟨by simp, by simp, fun _ => ⟨hp.2, rfl⟩, rfl, rfl, rfl, rfl,
      .finish ⟨hp.1, rfl⟩ hp.2 rfl⟩))
  | queueInLoop f =>
    simp only [step] at h
    split_ifs at h with hp
    cases h
    exact .inl ⟨f, by simp, by simp, by simp, queueInLoop_pushed s f⟩
  | pushFrom t f =>
    simp only [step] at h
    split_ifs at h with hp
    cases h
    exact .inl ⟨f, by simp, by simp, by simp, rfl, rfl, rfl, rfl, rfl, rfl⟩

end EventLoop

end TinyNetwork
