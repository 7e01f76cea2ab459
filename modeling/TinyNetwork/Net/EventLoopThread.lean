import TinyNetwork.Net.EventLoop

/-!
# `class EventLoopThread` (src/net/EventLoopThread.h, src/net/EventLoopThread.cpp)

A thread with an event loop of its own.  The owner calls `startLoop()`, which returns as soon as the
new thread has published `loop_`, and later runs `~EventLoopThread`, which calls `quit()` and joins.
The new thread runs `threadFunc`: it makes the loop, runs the callback, publishes `loop_`, calls
`loop()` and takes `loop_` back.  Other threads may call `quit()` and `queueInLoop` on the loop from
the moment it exists until its thread ends; a call on it after that is not modelled.

`quitStored` and `furtherPolls` are history: has `quit()` stored `true`, and how many polls have
returned since.

`quit_remembered_iff`: a `quit()` is remembered unless it comes before `loop()` has begun, because
`loop()` begins with `quit_ = false`.  `startLoop()` does not wait for that.
-/

namespace TinyNetwork

open Lts

namespace EventLoopThread

/-- Where the owner is: in the constructor, in `startLoop()`, after it, and in the destructor behind
its test of `loop_`, behind the store of `quit_`, in `join()`, or at the end. -/
inductive Owner
  | constructed
  | waiting
  | started
  | quitting
  | waking
  | joining
  | destroyed
  deriving DecidableEq

/-- Where the new thread is in `threadFunc`. -/
inductive Worker
  | notStarted
  | initializing
  | looping
  | finished
  deriving DecidableEq

inductive Label (F : Type)
  | startLoop
  | publish
  | startLoopReturn
  | loop (l : EventLoop.Label F)
  | unpublish
  | destroy
  | quit
  | wakeup
  | join

/-- The owner as a caller of its loop. -/
def ownerTid : Tid := 0

end EventLoopThread

structure EventLoopThread (F : Type) where
  loop : EventLoop F := EventLoop.new
  published : Bool := false
  exiting : Bool := false
  owner : EventLoopThread.Owner := .constructed
  worker : EventLoopThread.Worker := .notStarted
  quitStored : Bool := false
  furtherPolls : ℕ := 0

namespace EventLoopThread

variable {F : Type}

def new : EventLoopThread F := {}

/-- The loop after a step, with the history: was `quit_` stored, did a poll return? -/
def advance (s : EventLoopThread F) (l : EventLoop.Label F) (loop : EventLoop F) :
    EventLoopThread F :=
  { s with
    loop := loop
    quitStored := s.quitStored || l.isQuit
    furtherPolls := s.furtherPolls +
      match l with
      | .poll _ => if s.quitStored then 1 else 0
      | _ => 0 }

/-- Who may take a step of the loop: `loop()` is called by `threadFunc` when `loop_` is published,
and the owner calls by its own labels. -/
def Allowed (s : EventLoopThread F) : EventLoop.Label F → Prop
  | .startLoop => s.worker = .looping
  | .pushFrom t _ => t ≠ ownerTid
  | .quitFrom t => t ≠ ownerTid
  | .wakeup t => t ≠ ownerTid
  | _ => True

instance (s : EventLoopThread F) (l : EventLoop.Label F) : Decidable (s.Allowed l) := by
  cases l <;> unfold Allowed <;> infer_instance

/-- The loop exists. -/
def Alive (s : EventLoopThread F) : Prop := s.worker = .initializing ∨ s.worker = .looping

instance (s : EventLoopThread F) : Decidable s.Alive := by
  unfold Alive
  infer_instance

def step (s : EventLoopThread F) : Label F → Option (EventLoopThread F)
  | .startLoop =>
    if s.owner = .constructed then some { s with owner := .waiting, worker := .initializing }
    else none
  | .publish =>
    if s.worker = .initializing then some { s with published := true, worker := .looping }
    else none
  | .startLoopReturn =>
    if s.owner = .waiting ∧ s.published = true then some { s with owner := .started } else none
  | .loop l =>
    if s.Alive ∧ s.Allowed l then (s.loop.step l).map (s.advance l) else none
  | .unpublish =>
    if s.worker = .looping ∧ s.loop.phase = .returned then
      some { s with published := false, worker := .finished }
    else none
  | .destroy =>
    if s.owner = .constructed ∨ s.owner = .started then
      some { s with exiting := true, owner := if s.published then .quitting else .destroyed }
    else none
  | .quit =>
    if s.owner = .quitting ∧ s.Alive then
      (s.loop.step (.quitFrom ownerTid)).map fun loop =>
        { s.advance (.quitFrom ownerTid) loop with owner := .waking }
    else none
  | .wakeup =>
    if s.owner = .waking ∧ s.Alive then
      (s.loop.step (.wakeup ownerTid)).map fun loop =>
        { s.advance (.wakeup ownerTid) loop with owner := .joining }
    else none
  | .join =>
    if s.owner = .joining ∧ s.worker = .finished then some { s with owner := .destroyed } else none

/-- The step of the loop that a step contains. -/
def Label.inLoop : Label F → Option (EventLoop.Label F)
  | .loop l => some l
  | .quit => some (.quitFrom ownerTid)
  | .wakeup => some (.wakeup ownerTid)
  | _ => none

/-- What a step does to the loop and to the history. -/
structure Advances (s t : EventLoopThread F) (l : EventLoop.Label F) : Prop where
  loop : s.loop.step l = some t.loop
  quitStored : t.quitStored = (s.quitStored || l.isQuit)
  furtherPolls : t.furtherPolls = (s.advance l t.loop).furtherPolls

/-- A step is one of the loop, or leaves the loop alone. -/
theorem step_cases {s t : EventLoopThread F} {l : Label F} (h : step s l = some t) :
    (∃ m, l.inLoop = some m ∧ Advances s t m) ∨
      (l.inLoop = none ∧ t.loop = s.loop ∧ t.quitStored = s.quitStored ∧
        t.furtherPolls = s.furtherPolls) := by
  cases l with
  | loop m =>
    simp only [step] at h
    split_ifs at h
    obtain ⟨loop, hloop, rfl⟩ := Option.map_eq_some_iff.1 h
    exact .inl ⟨m, rfl, hloop, rfl, rfl⟩
  | quit =>
    simp only [step] at h
    split_ifs at h
    obtain ⟨loop, hloop, rfl⟩ := Option.map_eq_some_iff.1 h
    exact .inl ⟨_, rfl, hloop, rfl, rfl⟩
  | wakeup =>
    simp only [step] at h
    split_ifs at h
    obtain ⟨loop, hloop, rfl⟩ := Option.map_eq_some_iff.1 h
    exact .inl ⟨_, rfl, hloop, rfl, rfl⟩
  | destroy =>
    simp only [step] at h
    split_ifs at h <;> cases h <;> exact .inr ⟨rfl, rfl, rfl, rfl⟩
  | _ =>
    simp only [step] at h
    split_ifs at h
    cases h
    exact .inr ⟨rfl, rfl, rfl, rfl⟩

/-- The owner is in `join()` or on its way there only behind its store of `quit_`. -/
theorem owner_step {s t : EventLoopThread F} {l : Label F}
    (hs : s.owner = .waking ∨ s.owner = .joining → s.quitStored = true)
    (h : step s l = some t) : t.owner = .waking ∨ t.owner = .joining → t.quitStored = true := by
  cases l with
  | loop m =>
    simp only [step] at h
    split_ifs at h
    obtain ⟨loop, -, rfl⟩ := Option.map_eq_some_iff.1 h
    intro ho
    simp [advance, hs ho]
  | quit =>
    simp only [step] at h
    split_ifs at h
    obtain ⟨loop, -, rfl⟩ := Option.map_eq_some_iff.1 h
    intro _
    simp [advance, EventLoop.Label.isQuit]
  | wakeup =>
    simp only [step] at h
    split_ifs at h with hc
    obtain ⟨loop, -, rfl⟩ := Option.map_eq_some_iff.1 h
    intro _
    simp [advance, hs (.inl hc.1)]
  | destroy =>
    simp only [step] at h
    split_ifs at h <;> cases h <;> intro ho <;> simp at ho
  | _ =>
    simp only [step] at h
    split_ifs at h
    cases h
    first | exact hs | (intro ho; simp at ho)

/-! ### Is a quit request remembered? -/

/-- Once `quit_` has been stored it stays set, at most one poll is under way or returns after the
store, and an owner in `join()` waits for a loop that knows it must stop. -/
structure Remembered (s : EventLoopThread F) : Prop where
  quit : s.quitStored = true → s.loop.quit = true
  polls : s.quitStored = true → s.furtherPolls + (if s.loop.phase = .poll then 1 else 0) ≤ 1
  join : s.owner = .joining → s.loop.quit = true

/-- `quit()` stores the flag after `loop()` has begun. -/
def QuitsStarted (s : EventLoopThread F) (l : Label F) : Prop :=
  ∀ m ∈ l.inLoop, m.isQuit = true → s.loop.phase ≠ .idle

instance (s : EventLoopThread F) (l : Label F) : Decidable (s.QuitsStarted l) := by
  unfold QuitsStarted
  infer_instance

/-- A loop that has begun keeps `quit_` once it is set, and starts no poll then. -/
theorem quit_kept {s t : EventLoop F} {m : EventLoop.Label F} (hquit : s.quit = true)
    (hbegun : s.phase ≠ .idle) (h : s.step m = some t) :
    t.quit = true ∧ t.phase ≠ .idle ∧
      (match m with
        | .poll _ => s.phase = .poll ∧ t.phase ≠ .poll
        | _ => t.phase = .poll → s.phase = .poll) := by
  cases m with
  | startLoop =>
    simp only [EventLoop.step] at h
    split_ifs at h with hp
    exact absurd hp hbegun
  | runFunctor =>
    simp only [EventLoop.step] at h
    split at h
    · split_ifs at h with hp
      cases h
      exact ⟨hquit, hbegun, id⟩
    · cases h
  | queueInLoop f =>
    simp only [EventLoop.step] at h
    split_ifs at h
    cases h
    have hpushed := EventLoop.queueInLoop_pushed s f
    refine ⟨hpushed.quit.trans hquit, ?_, ?_⟩
    · rwa [hpushed.phase]
    · rw [hpushed.phase]
      exact id
  | test =>
    simp only [EventLoop.step] at h
    split_ifs at h with hp
    cases h
    exact ⟨hquit, by simp, by simp⟩
  | _ =>
    simp only [EventLoop.step] at h
    split_ifs at h with hp
    cases h
    simp_all [EventLoop.push]

/-- What holds while no quit request comes before `loop()`. -/
structure Inv (s : EventLoopThread F) : Prop where
  quit : s.quitStored = true → s.loop.quit = true ∧ s.loop.phase ≠ .idle
  polls : s.furtherPolls + (if s.loop.phase = .poll then 1 else 0) ≤ 1
  unquit : s.quitStored = false → s.furtherPolls = 0
  owner : s.owner = .waking ∨ s.owner = .joining → s.quitStored = true

theorem inv_new : Inv (new : EventLoopThread F) :=
  ⟨fun h => Bool.noConfusion h, Nat.zero_le 1, fun _ => rfl,
    fun h => h.elim (fun h => Owner.noConfusion h) fun h => Owner.noConfusion h⟩

theorem Inv.remembered {s : EventLoopThread F} (hs : Inv s) : Remembered s :=
  ⟨fun h => (hs.quit h).1, fun _ => hs.polls, fun h => (hs.quit (hs.owner (.inr h))).1⟩

/-- `quit()` stores the flag and does not move the loop thread. -/
theorem quit_stored {s t : EventLoop F} {m : EventLoop.Label F} (hm : m.isQuit = true)
    (h : s.step m = some t) : t.quit = true ∧ t.phase = s.phase := by
  cases m with
  | quitInLoop | quitFrom _ =>
    simp only [EventLoop.step] at h
    split_ifs at h
    cases h
    exact ⟨rfl, rfl⟩
  | _ => exact Bool.noConfusion hm

theorem Inv.advance {s t : EventLoopThread F} {m : EventLoop.Label F} (hs : Inv s)
    (hm : Advances s t m) (hstarted : m.isQuit = true → s.loop.phase ≠ .idle)
    (howner : t.owner = .waking ∨ t.owner = .joining → t.quitStored = true) : Inv t := by
  have hstored := hm.quitStored
  have hcount := hm.furtherPolls
  have hpolls := hs.polls
  cases hq : s.quitStored with
  | true =>
    -- the flag stays set, and a poll that returns was under way
    obtain ⟨hquit, hbegun⟩ := hs.quit hq
    obtain ⟨hquit', hbegun', hpoll⟩ := quit_kept hquit hbegun hm.loop
    rw [hq, Bool.true_or] at hstored
    refine ⟨fun _ => ⟨hquit', hbegun'⟩, ?_, fun h => ?_, howner⟩
    · cases m with
      | poll active =>
        simp only [EventLoopThread.advance, hq, if_true] at hcount
        rw [if_pos hpoll.1] at hpolls
        rw [if_neg hpoll.2]
        omega
      | _ =>
        simp only [EventLoopThread.advance, Nat.add_zero] at hcount
        split_ifs with hp
        · rw [if_pos (hpoll hp)] at hpolls
          omega
        · omega
    · rw [hstored] at h
      cases h
  | false =>
    -- nothing is counted before the first store
    have hzero : t.furtherPolls = 0 := by
      rw [hcount]
      cases m <;> simp [EventLoopThread.advance, hs.unquit hq, hq]
    rw [hq, Bool.false_or] at hstored
    refine ⟨fun h => ?_, ?_, fun _ => hzero, howner⟩
    · rw [hstored] at h
      obtain ⟨hquit, hphase⟩ := quit_stored h hm.loop
      exact ⟨hquit, hphase ▸ hstarted h⟩
    · split_ifs <;> omega

theorem inv_step {s t : EventLoopThread F} {l : Label F} (hs : Inv s) (hl : s.QuitsStarted l)
    (h : step s l = some t) : Inv t := by
  have howner := owner_step hs.owner h
  rcases step_cases h with ⟨m, hm, hadvances⟩ | ⟨-, hloop, hstored, hcount⟩
  · exact hs.advance hadvances (hl m hm) howner
  · refine ⟨?_, ?_, ?_, howner⟩
    · rw [hstored, hloop]
      exact hs.quit
    · rw [hcount, hloop]
      exact hs.polls
    · rw [hstored, hcount]
      exact hs.unquit

/-- A request that comes before `loop()` is forgotten when `loop()` begins. -/
theorem forgotten_of_idle {s t : EventLoopThread F} {ls : List (Label F)}
    (hstored : s.quitStored = true) (hidle : s.loop.phase = .idle) (h : run step s ls = some t)
    (hbegun : t.loop.phase ≠ .idle) :
    ∃ ms u, ms <+: ls ∧ run step s ms = some u ∧ ¬ Remembered u := by
  induction ls generalizing s with
  | nil =>
    cases h
    exact absurd hidle hbegun
  | cons l ls ih =>
    obtain ⟨v, hv, hrest⟩ := run_cons_eq_some.1 h
    have hstored' : v.quitStored = true := by
      rcases step_cases hv with ⟨m, -, hm⟩ | ⟨-, -, hsame, -⟩
      · rw [hm.quitStored, hstored, Bool.true_or]
      · rw [hsame, hstored]
    by_cases hphase : v.loop.phase = .idle
    · obtain ⟨ms, u, hms, hu, hforgotten⟩ := ih hstored' hphase hrest
      exact ⟨l :: ms, u, (List.prefix_cons_inj l).2 hms, run_cons_eq_some.2 ⟨v, hv, hu⟩,
        hforgotten⟩
    · -- only the beginning of `loop()` leads out of `idle`, and it clears the flag
      have hcleared : v.loop.quit = false := by
        rcases step_cases hv with ⟨m, -, hm⟩ | ⟨-, hloop, -, -⟩
        · rcases EventLoop.step_cases hm.loop with ⟨f, -, -, -, hp⟩ | ⟨-, hw⟩ | ⟨-, f, hr⟩ |
            ⟨-, -, -, hmove⟩
          · exact absurd (hp.phase.trans hidle) hphase
          · exact absurd (hw.phase.1.symm.trans hidle) (by decide)
          · exact absurd (hr.phase.1.symm.trans hidle) (by decide)
          · cases hmove.phase with
            | stay hsame => exact absurd (hsame.trans hidle) hphase
            | start _ hq => exact hq
            | test hp => exact absurd (hp.1.symm.trans hidle) (by decide)
            | ret hp => exact absurd (hp.1.symm.trans hidle) (by decide)
            | poll hp => exact absurd (hp.1.symm.trans hidle) (by decide)
            | handled hp => exact absurd (hp.1.symm.trans hidle) (by decide)
            | finish hp => exact absurd (hp.1.symm.trans hidle) (by decide)
        · exact absurd ((congrArg EventLoop.phase hloop).trans hidle) hphase
      refine ⟨[l], v, ⟨ls, rfl⟩, run_cons_eq_some.2 ⟨v, hv, rfl⟩, fun hrem => ?_⟩
      have hquit := hrem.quit hstored'
      rw [hcleared] at hquit
      cases hquit

/-- While every request is remembered, none comes before `loop()`, if `loop()` begins at all. -/
theorem quitsStarted_of_remembered {s t : EventLoopThread F} {ls : List (Label F)}
    (h : run step s ls = some t) (hbegun : t.loop.phase ≠ .idle)
    (hall : ∀ ms u, ms <+: ls → run step s ms = some u → Remembered u) :
    Along step QuitsStarted s ls := by
  induction ls generalizing s with
  | nil => trivial
  | cons l ls ih =>
    obtain ⟨v, hv, hrest⟩ := run_cons_eq_some.1 h
    refine (along_cons_of_step hv).2 ⟨fun m hm hquit hidle => ?_, ih hrest fun ms u hms hu => ?_⟩
    · rcases step_cases hv with ⟨m', hm', hadvances⟩ | ⟨hnone, -⟩
      · rw [hm, Option.some.injEq] at hm'
        subst hm'
        have hphase := (quit_stored hquit hadvances.loop).2
        have hstored : v.quitStored = true := by
          rw [hadvances.quitStored, hquit, Bool.or_true]
        obtain ⟨ms, u, hms, hu, hforgotten⟩ :=
          forgotten_of_idle hstored (hphase.trans hidle) hrest hbegun
        exact hforgotten (hall (l :: ms) u ((List.prefix_cons_inj l).2 hms)
          (run_cons_eq_some.2 ⟨v, hv, hu⟩))
      · rw [hm] at hnone
        cases hnone
    · exact hall (l :: ms) u ((List.prefix_cons_inj l).2 hms) (run_cons_eq_some.2 ⟨v, hv, hu⟩)

/-- **When a quit request is remembered.**  In a run in which every `quit()` stores the flag after
`loop()` has begun, `quit_` is never cleared again once it was stored, at most one poll follows the
store, and the owner joins a loop that knows it must stop.  In a run in which `loop()` begins at all
this holds throughout only if every `quit()` does so. -/
theorem quit_remembered_iff {ls : List (Label F)} {t : EventLoopThread F}
    (h : run step new ls = some t) :
    (Along step QuitsStarted new ls →
      ∀ ms u, ms <+: ls → run step new ms = some u → Remembered u) ∧
    (t.loop.phase ≠ .idle →
      (∀ ms u, ms <+: ls → run step new ms = some u → Remembered u) →
      Along step QuitsStarted new ls) := by
  refine ⟨fun hls ms u hms hu => ?_, quitsStarted_of_remembered h⟩
  obtain ⟨rest, rfl⟩ := hms
  have hinv : Inv u :=
    run_preserves_along (fun _ _ _ hs hl hstep => inv_step hs hl hstep) inv_new hls.of_append hu
  exact hinv.remembered

/-- The owner destroys the object while the loop polls. -/
def quitInPoll : List (Label ℕ) :=
  [.startLoop, .publish, .startLoopReturn, .loop .startLoop, .loop .test, .destroy, .quit, .wakeup,
    .loop (.poll true), .loop .handleRead, .loop .endHandling, .loop .swap, .loop .endFunctors,
    .loop .test, .unpublish, .join]

theorem quit_remembered_inPoll :
    ∃ s, run step new quitInPoll = some s ∧ s.owner = .destroyed ∧ Remembered s := by
  have hrun : (run step new quitInPoll).map owner = some .destroyed := by decide
  obtain ⟨s, hs, howner⟩ := Option.map_eq_some_iff.1 hrun
  exact ⟨s, hs, howner, (quit_remembered_iff hs).1 (by decide) _ s (List.prefix_refl _) hs⟩

/-- The owner destroys the object as soon as `startLoop()` has returned: `loop()` begins behind the
`quit()`, forgets it and blocks, and the owner waits in `join()`. -/
theorem quit_forgotten :
    ∃ s, run step (new : EventLoopThread ℕ) [.startLoop, .publish, .startLoopReturn, .destroy,
        .quit, .wakeup, .loop .startLoop, .loop .test] = some s ∧
      s.owner = .joining ∧ s.quitStored = true ∧ s.loop.quit = false ∧ s.loop.phase = .poll ∧
      ¬ Remembered s := by
  refine ⟨_, rfl, rfl, rfl, rfl, rfl, fun hrem => ?_⟩
  exact Bool.noConfusion (hrem.join rfl)

end EventLoopThread

end TinyNetwork
