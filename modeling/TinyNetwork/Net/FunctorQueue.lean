import TinyNetwork.Net.EventLoop

/-!
# The functor queue of an event loop

`functorQueue_fifo`: whatever the threads do, the functors called so far, the rest of the local
batch and the pending functors are together the functors in the order in which they were pushed,
and a pass of `doPendingFunctors` calls exactly the functors that were pending at its swap.

`executed_by_return_iff`: what a thread queued before its `quit()` is executed by the time `loop()`
returns, unless `quit_` was stored while the loop thread was past the swap of the current pass and
the functor was pushed behind that swap (`Stranded`).  Nothing calls `doPendingFunctors` after the
loop, so such a functor is dropped.  `TcpServer::~TcpServer` queues `connectDestroyed` on the I/O
loops just before `~EventLoopThread` calls `quit()`.
-/

namespace TinyNetwork

open Lts

namespace EventLoop

variable {F : Type}

/-- The queue is in order, and there is a local batch only while functors are called. -/
structure QueueInv (s : EventLoop F) : Prop where
  fifo : s.executed ++ s.functors ++ s.pendingFunctors = s.enqueued
  batch : s.phase ≠ .functors → s.functors = []

theorem queueInv_new : QueueInv (new : EventLoop F) := ⟨rfl, fun _ => rfl⟩

theorem queueInv_pushed {s t : EventLoop F} {f : F} (hs : QueueInv s) (hp : Pushed s t f) :
    QueueInv t := by
  refine ⟨?_, ?_⟩
  · rw [hp.executed, hp.functors, hp.pending, hp.enqueued, ← hs.fifo, List.append_assoc]
    simp only [List.append_assoc]
  · rw [hp.phase, hp.functors]
    exact hs.batch

theorem queueInv_step {s t : EventLoop F} {l : Label F} (hs : QueueInv s)
    (h : step s l = some t) : QueueInv t := by
  obtain ⟨hfifo, hbatch⟩ := hs
  rcases step_cases h with ⟨f, -, -, -, hp⟩ | ⟨-, hw⟩ | ⟨-, f, hr⟩ | ⟨-, -, -, hm⟩
  · exact queueInv_pushed ⟨hfifo, hbatch⟩ hp
  · have hnil : s.functors = [] := hbatch (by rw [hw.phase.1]; decide)
    refine ⟨?_, ?_⟩
    · rw [hw.executed, hw.functors, hw.pending, hw.enqueued, ← hfifo, hnil]
      simp only [List.append_nil]
    · intro hne
      exact absurd hw.phase.2 hne
  · refine ⟨?_, ?_⟩
    · rw [hr.executed, hr.pending, hr.enqueued, ← hfifo, hr.functors]
      simp only [List.append_assoc, List.cons_append, List.nil_append]
    · intro hne
      exact absurd hr.phase.2 hne
  · refine ⟨by rw [hm.executed, hm.functors, hm.pending, hm.enqueued, hfifo], fun hne => ?_⟩
    rw [hm.functors]
    cases hm.phase with
    | stay hph => exact hbatch (hph ▸ hne)
    | start hph => exact hbatch (by rw [hph.1]; decide)
    | test hph => exact hbatch (by rw [hph.1]; decide)
    | ret hph => exact hbatch (by rw [hph.1]; decide)
    | poll hph => exact hbatch (by rw [hph.1]; decide)
    | handled hph => exact hbatch (by rw [hph.1]; decide)
    | finish _ hf => exact hf

theorem queueInv_run {ls : List (Label F)} {s : EventLoop F} (h : run step new ls = some s) :
    QueueInv s :=
  run_preserves (fun _ _ _ hs hstep => queueInv_step hs hstep) queueInv_new h

/-! ### The functors not executed yet -/

/-- The rest of the local batch and the pending functors. -/
def backlog (s : EventLoop F) : List F := s.functors ++ s.pendingFunctors

/-- The functor a step pushes. -/
def Label.pushed : Label F → Option F
  | .queueInLoop f => some f
  | .pushFrom _ f => some f
  | _ => none

theorem backlog_pushed {s t : EventLoop F} {f : F} (hp : Pushed s t f) :
    t.backlog = s.backlog ++ [f] := by
  rw [backlog, hp.functors, hp.pending, ← List.append_assoc]
  rfl

@[simp] theorem backlog_queueInLoop (s : EventLoop F) (f : F) :
    (s.queueInLoop f).backlog = s.backlog ++ [f] := backlog_pushed (queueInLoop_pushed s f)

theorem backlog_runFunctor {s t : EventLoop F} (h : step s .runFunctor = some t) :
    ∃ f rest, s.functors = f :: rest ∧ s.backlog = f :: t.backlog := by
  simp only [step] at h
  split at h
  · rename_i f rest hf
    split_ifs at h
    cases h
    exact ⟨f, rest, hf, by rw [backlog, hf]; rfl⟩
  · cases h

/-- A step that calls no functor pushes one or leaves the backlog alone. -/
theorem backlog_step {s t : EventLoop F} {l : Label F} (hs : QueueInv s)
    (h : step s l = some t) (hl : l ≠ .runFunctor) :
    t.backlog = s.backlog ++ l.pushed.toList := by
  cases l with
  | runFunctor => exact absurd rfl hl
  | swap =>
    simp only [step] at h
    split_ifs at h with hp
    cases h
    have hnil : s.functors = [] := hs.batch (by rw [hp]; decide)
    simp [backlog, Label.pushed, hnil]
  | queueInLoop f =>
    simp only [step] at h
    split_ifs at h
    cases h
    exact backlog_queueInLoop s f
  | _ =>
    simp only [step] at h
    split_ifs at h <;> cases h <;> simp [backlog, Label.pushed, push]

/-! ### One pass of `doPendingFunctors` -/

/-- The label is a call of a functor. -/
def Label.isRun : Label F → Bool
  | .runFunctor => true
  | _ => false

theorem isRun_eq_false {l : Label F} (h : l ≠ .runFunctor) : l.isRun = false := by
  cases l <;> first | rfl | exact absurd rfl h

/-- Without another swap, a run calls the functors of the local batch in order and no others. -/
theorem run_batch {s t : EventLoop F} {ls : List (Label F)} (hls : ∀ l ∈ ls, l ≠ .swap)
    (h : run step s ls = some t) :
    t.executed = s.executed ++ s.functors.take (ls.countP Label.isRun) ∧
      t.functors = s.functors.drop (ls.countP Label.isRun) ∧
      ls.countP Label.isRun ≤ s.functors.length ∧
      (.endFunctors ∈ ls → ls.countP Label.isRun = s.functors.length) := by
  induction ls generalizing s with
  | nil =>
    cases h
    simp
  | cons l ls ih =>
    obtain ⟨u, hu, hrest⟩ := run_cons_eq_some.1 h
    obtain ⟨hexec, hfun, hle, hend⟩ := ih (fun l hl => hls l (List.mem_cons_of_mem _ hl)) hrest
    rcases step_cases hu with ⟨f, -, hr, he, hp⟩ | ⟨hw, -⟩ | ⟨rfl, f, hr⟩ | ⟨-, hr, he, hm⟩
    · rw [List.countP_cons_of_neg (by simp [isRun_eq_false hr])]
      rw [hp.executed, hp.functors] at hexec
      rw [hp.functors] at hfun hle hend
      refine ⟨hexec, hfun, hle, fun hmem => hend ?_⟩
      exact (List.mem_cons.1 hmem).resolve_left (Ne.symm he)
    · exact absurd hw (hls l (List.mem_cons_self))
    · rw [List.countP_cons_of_pos rfl, hr.functors]
      refine ⟨?_, ?_, ?_, fun hmem => ?_⟩
      · rw [hexec, hr.executed, List.take_succ_cons, List.append_assoc]
        rfl
      · rw [hfun, List.drop_succ_cons]
      · rw [List.length_cons]
        omega
      · have := hend ((List.mem_cons.1 hmem).resolve_left (by simp))
        rw [List.length_cons]
        omega
    · rw [List.countP_cons_of_neg (by simp [isRun_eq_false hr])]
      rw [hm.executed, hm.functors] at hexec
      rw [hm.functors] at hfun hle hend
      refine ⟨hexec, hfun, hle, fun hmem => ?_⟩
      rcases List.mem_cons.1 hmem with heq | hmem
      · have hnil := (he heq.symm).1
        rw [hnil, List.length_nil] at hle ⊢
        omega
      · exact hend hmem

/-- Inside a pass the loop thread can always go on: it calls the next functor of the batch, and
ends the pass when there is none. -/
theorem pass_progress {s : EventLoop F} (h : s.phase = .functors) :
    (s.functors ≠ [] → (step s .runFunctor).isSome) ∧
      (s.functors = [] → (step s .endFunctors).isSome) := by
  constructor
  · intro hne
    obtain ⟨f, rest, hf⟩ := List.exists_cons_of_ne_nil hne
    simp [step, hf, h]
  · intro hnil
    simp [step, hnil, h]

/-- **The functor queue is exactly-once and in order.**  In every state of every run the executed
functors, the rest of the local batch and the pending functors are the functors pushed, in mutex
order.  In a pass, the functors called are those pending at its swap, in order: as many as calls
were made so far, all of them once the pass has ended, and never more, whatever is queued
meanwhile. -/
theorem functorQueue_fifo {ls : List (Label F)} {s : EventLoop F}
    (h : run step new ls = some s) :
    s.executed ++ s.functors ++ s.pendingFunctors = s.enqueued ∧
      (∀ pre pass t, ls = pre ++ .swap :: pass → (∀ l ∈ pass, l ≠ .swap) →
        run step new pre = some t →
          s.executed = t.executed ++ t.pendingFunctors.take (pass.countP Label.isRun) ∧
          s.functors = t.pendingFunctors.drop (pass.countP Label.isRun) ∧
          pass.countP Label.isRun ≤ t.pendingFunctors.length ∧
          (.endFunctors ∈ pass →
            pass.countP Label.isRun = t.pendingFunctors.length)) ∧
      (s.phase = .functors →
        (s.functors ≠ [] → (step s .runFunctor).isSome) ∧
        (s.functors = [] → (step s .endFunctors).isSome)) := by
  refine ⟨(queueInv_run h).fifo, ?_, pass_progress⟩
  rintro pre pass t rfl hpass ht
  obtain ⟨t', ht', hrest⟩ := run_append_eq_some.1 h
  rw [ht] at ht'
  cases ht'
  obtain ⟨u, hu, hrun⟩ := run_cons_eq_some.1 hrest
  have hbatch := run_batch hpass hrun
  rcases step_cases hu with ⟨f, hne, -⟩ | ⟨-, hw⟩ | ⟨hne, -⟩ | ⟨hne, -⟩
  · exact absurd rfl hne
  · rwa [hw.executed, hw.functors] at hbatch
  · cases hne
  · exact absurd rfl hne

/-- A pass during which functor `1` queues itself again. -/
theorem functorQueue_fifo_requeue :
    ∃ s : EventLoop ℕ,
      run step new [.startLoop, .pushFrom 5 1, .wakeup 5, .test, .poll true, .handleRead,
        .endHandling, .swap, .runFunctor, .queueInLoop 1, .endFunctors] = some s ∧
      s.executed ++ s.functors ++ s.pendingFunctors = s.enqueued ∧ s.pendingFunctors = [1] := by
  have hrun : (run step (new : EventLoop ℕ) [.startLoop, .pushFrom 5 1, .wakeup 5, .test,
      .poll true, .handleRead, .endHandling, .swap, .runFunctor, .queueInLoop 1,
      .endFunctors]).map pendingFunctors = some [1] := by decide
  obtain ⟨s, hs, hpending⟩ := Option.map_eq_some_iff.1 hrun
  exact ⟨s, hs, (functorQueue_fifo hs).1, hpending⟩

/-! ### `quit()` after `queueInLoop` -/

/-- The functor pushed as number `k` is called before `loop()` returns, as things stand: it was
swapped out already, or the loop thread has yet to swap. -/
def Safe (k : ℕ) (s : EventLoop F) : Prop :=
  k < s.executed.length + s.functors.length ∨
    (k < s.enqueued.length ∧ (s.phase = .poll ∨ s.phase = .handling ∨ s.phase = .swap))

/-- The functor pushed as number `k` is still pending, and the loop thread is past the swap of the
current pass and has not tested `quit_` yet. -/
def Stranded (k : ℕ) (s : EventLoop F) : Prop :=
  s.executed.length + s.functors.length ≤ k ∧ (s.phase = .functors ∨ s.phase = .test)

theorem safe_step {k : ℕ} {s t : EventLoop F} {l : Label F} (hinv : QueueInv s) (hs : Safe k s)
    (h : step s l = some t) : Safe k t := by
  unfold Safe at hs ⊢
  rcases step_cases h with ⟨f, -, -, -, hp⟩ | ⟨-, hw⟩ | ⟨-, f, hr⟩ | ⟨-, -, -, hm⟩
  · rw [hp.executed, hp.functors, hp.enqueued, hp.phase, List.length_append]
    rcases hs with hs | ⟨hk, hph⟩
    · exact .inl hs
    · exact .inr ⟨by omega, hph⟩
  · -- the swap takes over everything that was pending
    have hlen := congrArg List.length hinv.fifo
    have hnil : s.functors = [] := hinv.batch (by rw [hw.phase.1]; decide)
    simp only [hnil, List.append_nil, List.length_append] at hlen
    rw [hw.executed, hw.functors]
    simp only [hnil, List.length_nil] at hs
    rcases hs with hs | ⟨hk, -⟩ <;> exact .inl (by omega)
  · rw [hr.executed, List.length_append, List.length_singleton]
    rw [hr.functors, List.length_cons] at hs
    rcases hs with hs | ⟨-, hph⟩
    · exact .inl (by omega)
    · simp [hr.phase.1] at hph
  · rw [hm.executed, hm.functors, hm.enqueued]
    rcases hs with hs | ⟨hk, hph⟩
    · exact .inl hs
    · refine .inr ⟨hk, ?_⟩
      cases hm.phase with
      | stay h' => rwa [h']
      | start h' => simp [h'.1] at hph
      | test h' => simp [h'.2]
      | ret h' => simp [h'.1] at hph
      | poll h' => simp [h'.2]
      | handled h' => simp [h'.2]
      | finish h' => simp [h'.1] at hph

/-- Nobody has called `quit()` since `loop()` cleared the flag. -/
def Unquit (s : EventLoop F) : Prop := s.phase = .idle ∨ (s.quit = false ∧ s.phase ≠ .returned)

theorem unquit_step {s t : EventLoop F} {l : Label F} (hl : l.isQuit = false) (hs : Unquit s)
    (h : step s l = some t) : Unquit t := by
  unfold Unquit at hs ⊢
  rcases step_cases h with ⟨f, -, -, -, hp⟩ | ⟨-, hw⟩ | ⟨-, f, hr⟩ | ⟨-, -, -, hm⟩
  · rwa [hp.phase, hp.quit]
  · rcases hs with hs | ⟨hq, -⟩
    · simp [hw.phase.1] at hs
    · exact .inr ⟨hw.quit.trans hq, by rw [hw.phase.2]; decide⟩
  · rcases hs with hs | ⟨hq, -⟩
    · simp [hr.phase.1] at hs
    · exact .inr ⟨hr.quit.trans hq, by rw [hr.phase.2]; decide⟩
  · cases hm.phase with
    | stay h' hq => rwa [h', hq hl]
    | start h' hq => exact .inr ⟨hq, by rw [h'.2]; decide⟩
    | test h' hq hq' => exact .inr ⟨hq'.trans hq, by rw [h'.2]; decide⟩
    | ret h' hq =>
      rcases hs with hs | ⟨hf, -⟩
      · simp [h'.1] at hs
      · simp [hq] at hf
    | poll h' hq' =>
      rcases hs with hs | ⟨hf, -⟩
      · simp [h'.1] at hs
      · exact .inr ⟨hq'.trans hf, by rw [h'.2]; decide⟩
    | handled h' _ hq' =>
      rcases hs with hs | ⟨hf, -⟩
      · simp [h'.1] at hs
      · exact .inr ⟨hq'.trans hf, by rw [h'.2]; decide⟩
    | finish h' _ hq' =>
      rcases hs with hs | ⟨hf, -⟩
      · simp [h'.1] at hs
      · exact .inr ⟨hq'.trans hf, by rw [h'.2]; decide⟩

/-- `quit_` is set, and the loop thread will read it before it swaps again: the functor number
`k` is dropped. -/
def Dropped (k : ℕ) (s : EventLoop F) : Prop :=
  s.quit = true ∧ s.executed.length + s.functors.length ≤ k ∧
    (s.phase = .functors ∨ s.phase = .test ∨ s.phase = .returned)

theorem dropped_step {k : ℕ} {s t : EventLoop F} {l : Label F} (hl : l.isQuit = false)
    (hs : Dropped k s) (h : step s l = some t) : Dropped k t := by
  obtain ⟨hq, hk, hph⟩ := hs
  unfold Dropped
  rcases step_cases h with ⟨f, -, -, -, hp⟩ | ⟨-, hw⟩ | ⟨-, f, hr⟩ | ⟨-, -, -, hm⟩
  · rw [hp.quit, hp.executed, hp.functors, hp.phase]
    exact ⟨hq, hk, hph⟩
  · simp [hw.phase.1] at hph
  · rw [hr.functors, List.length_cons] at hk
    rw [hr.quit, hr.executed, List.length_append, List.length_singleton]
    exact ⟨hq, by omega, .inl hr.phase.2⟩
  · rw [hm.executed, hm.functors]
    cases hm.phase with
    | stay h' hq' => exact ⟨(hq' hl).trans hq, hk, by rwa [h']⟩
    | start h' => simp [h'.1] at hph
    | test _ hf => simp [hq] at hf
    | ret h' _ hq' => exact ⟨hq'.trans hq, hk, .inr (.inr h'.2)⟩
    | poll h' => simp [h'.1] at hph
    | handled h' => simp [h'.1] at hph
    | finish h' _ hq' => exact ⟨hq'.trans hq, hk, .inr (.inl h'.2)⟩

/-- The history only grows. -/
theorem enqueued_prefix_step {s t : EventLoop F} {l : Label F} (h : step s l = some t) :
    s.enqueued <+: t.enqueued := by
  rcases step_cases h with ⟨f, -, -, -, hp⟩ | ⟨-, hw⟩ | ⟨-, f, hr⟩ | ⟨-, -, -, hm⟩
  · rw [hp.enqueued]
    exact List.prefix_append _ _
  · exact hw.enqueued ▸ List.prefix_refl _
  · exact hr.enqueued ▸ List.prefix_refl _
  · exact hm.enqueued ▸ List.prefix_refl _

theorem enqueued_prefix_run {s t : EventLoop F} {ls : List (Label F)}
    (h : run step s ls = some t) : s.enqueued <+: t.enqueued :=
  run_preserves (P := fun u => s.enqueued <+: u.enqueued)
    (fun _ _ _ hs hstep => hs.trans (enqueued_prefix_step hstep)) (List.prefix_refl _) h

/-- `quit()` from outside stores the flag and leaves the queues alone. -/
theorem quitFrom_store {s t : EventLoop F} {tid : Tid} (h : step s (.quitFrom tid) = some t) :
    t.quit = true ∧ t.executed = s.executed ∧ t.functors = s.functors ∧
      t.enqueued = s.enqueued ∧ t.phase = s.phase := by
  simp only [step] at h
  split_ifs at h
  cases h
  exact ⟨rfl, rfl, rfl, rfl, rfl⟩

/-- What is not stranded is safe, unless `loop()` has not started. -/
theorem safe_of_not_stranded {k : ℕ} {s : EventLoop F} (hun : Unquit s)
    (hk : k < s.enqueued.length) (hs : ¬ Stranded k s) : Safe k s ∨ s.phase = .idle := by
  by_cases hlt : k < s.executed.length + s.functors.length
  · exact .inl (.inl hlt)
  · have hph : ¬ (s.phase = .functors ∨ s.phase = .test) := fun hph => hs ⟨by omega, hph⟩
    by_cases hidle : s.phase = .idle
    · exact .inr hidle
    · have hnret : s.phase ≠ .returned := (hun.resolve_left hidle).2
      refine .inl (.inr ⟨hk, ?_⟩)
      cases hc : s.phase <;> simp [hc] at hph hidle hnret ⊢

/-- When `loop()` has returned, a safe functor has been executed. -/
theorem executed_of_safe {k : ℕ} {s t : EventLoop F} {ls : List (Label F)} (hinv : QueueInv s)
    (hs : Safe k s) (hk : k < s.enqueued.length) (h : run step s ls = some t)
    (hret : t.phase = .returned) : t.executed[k]? = s.enqueued[k]? := by
  obtain ⟨hinvt, hsafe⟩ : QueueInv t ∧ Safe k t :=
    run_preserves (P := fun u => QueueInv u ∧ Safe k u)
      (fun _ _ _ hu hstep => ⟨queueInv_step hu.1 hstep, safe_step hu.1 hu.2 hstep⟩) ⟨hinv, hs⟩ h
  have hnil : t.functors = [] := hinvt.batch (by rw [hret]; decide)
  have hlt : k < t.executed.length := by
    rcases hsafe with hlt | ⟨-, hph⟩
    · simpa [hnil] using hlt
    · simp [hret] at hph
  -- the executed functors are the first ones of the history
  obtain ⟨more, hmore⟩ := enqueued_prefix_run h
  have hget : t.enqueued[k]? = s.enqueued[k]? := by
    rw [← hmore, List.getElem?_append_left hk]
  rwa [← hinvt.fifo, List.append_assoc, List.getElem?_append_left hlt] at hget

/-- **When `quit()` drops queued work.**  A thread queues `f` and then calls `quit()`; nobody else
calls `quit()`.  Then `f`, the functor number `s₀.enqueued.length`, has been executed when `loop()`
returns if and only if the store of `quit_` did not find it stranded. -/
theorem executed_by_return_iff {pre mid post : List (Label F)} {t : Tid} {f : F}
    {s₀ s₁ s₂ s₃ : EventLoop F} (h₀ : run step new pre = some s₀)
    (h₁ : run step s₀ (.pushFrom t f :: mid) = some s₁) (h₂ : step s₁ (.quitFrom t) = some s₂)
    (h₃ : run step s₂ post = some s₃) (hquit : ∀ l ∈ pre ++ mid ++ post, l.isQuit = false)
    (hret : s₃.phase = .returned) :
    s₃.executed[s₀.enqueued.length]? = some f ↔ ¬ Stranded s₀.enqueued.length s₁ := by
  have hpre : ∀ l ∈ pre, l.isQuit = false := fun l hl => hquit l (by simp [hl])
  have hmid : ∀ l ∈ .pushFrom t f :: mid, l.isQuit = false := by
    intro l hl
    rcases List.mem_cons.1 hl with rfl | hl
    · rfl
    · exact hquit l (by simp [hl])
  have hpost : ∀ l ∈ post, l.isQuit = false := fun l hl => hquit l (by simp [hl])
  have hinv₁ : QueueInv s₁ := queueInv_run (run_append_eq_some.2 ⟨s₀, h₀, h₁⟩)
  have hinv₂ : QueueInv s₂ := queueInv_step hinv₁ h₂
  have hunquit : Unquit s₁ :=
    run_preserves_of_labels (fun _ _ _ hs hl h => unquit_step hl hs h)
      (run_preserves_of_labels (fun _ _ _ hs hl h => unquit_step hl hs h) (.inl rfl) hpre h₀)
      hmid h₁
  obtain ⟨hflag, hexec, hfun, henq, hphase⟩ := quitFrom_store h₂
  -- `f` is the functor number `s₀.enqueued.length` of the history
  have hk : s₁.enqueued[s₀.enqueued.length]? = some f ∧
      s₀.enqueued.length < s₁.enqueued.length := by
    obtain ⟨u, hu, hrest⟩ := run_cons_eq_some.1 h₁
    have hpush : u.enqueued = s₀.enqueued ++ [f] := by
      simp only [step] at hu
      split_ifs at hu
      cases hu
      rfl
    obtain ⟨more, hmore⟩ := enqueued_prefix_run hrest
    rw [hpush] at hmore
    rw [← hmore]
    simp
  constructor
  · rintro hdone ⟨hbound, hph⟩
    have hdrop : Dropped s₀.enqueued.length s₂ :=
      ⟨hflag, by rw [hexec, hfun]; exact hbound, by rw [hphase]; exact hph.imp_right .inl⟩
    obtain ⟨-, hlen, -⟩ := run_preserves_of_labels
      (fun _ _ _ hs hl h => dropped_step hl hs h) hdrop hpost h₃
    rw [List.getElem?_eq_none (by omega)] at hdone
    cases hdone
  · intro hstranded
    rcases safe_of_not_stranded hunquit hk.2 hstranded with hsafe | hidle
    · have hsafe₂ : Safe s₀.enqueued.length s₂ := by
        unfold Safe
        rwa [hexec, hfun, henq, hphase]
      rw [executed_of_safe hinv₂ hsafe₂ (henq ▸ hk.2) h₃ hret, henq, hk.1]
    · -- `loop()` has not started: it clears the flag, and does not return
      have hun : Unquit s₃ := run_preserves_of_labels
        (fun _ _ _ hs hl h => unquit_step hl hs h) (.inl (hphase.trans hidle)) hpost h₃
      rcases hun with hun | ⟨-, hun⟩
      · simp [hret] at hun
      · exact absurd hret hun

/-- `f` queued and `quit()` called while the loop thread polls: `f` is executed. -/
theorem executed_by_return_poll :
    ∃ s₀ s₁ s₂ s₃ : EventLoop ℕ,
      run step new [.startLoop, .test] = some s₀ ∧
      run step s₀ [.pushFrom 1 7, .wakeup 1] = some s₁ ∧
      step s₁ (.quitFrom 1) = some s₂ ∧
      run step s₂ [.wakeup 1, .poll true, .handleRead, .endHandling, .swap, .runFunctor,
        .endFunctors, .test] = some s₃ ∧
      s₃.executed[s₀.enqueued.length]? = some 7 := by
  let before : EventLoop ℕ := { looping := true, phase := .poll }
  let queued : EventLoop ℕ :=
    { looping := true, phase := .poll, pendingFunctors := [7], wakeupFd := 1, enqueued := [7]
      callers := Function.update (Function.update (fun _ => .outside) 1 .waking) 1 .outside }
  let quitting : EventLoop ℕ :=
    { queued with quit := true, callers := Function.update queued.callers 1 .waking }
  let after : EventLoop ℕ :=
    { quit := true, phase := .returned, enqueued := [7], executed := [7]
      callers := Function.update quitting.callers 1 .outside }
  have h₀ : run step new [.startLoop, .test] = some before := rfl
  have h₁ : run step before [.pushFrom 1 7, .wakeup 1] = some queued := rfl
  have h₂ : step queued (.quitFrom 1) = some quitting := rfl
  have h₃ : run step quitting [.wakeup 1, .poll true, .handleRead, .endHandling, .swap,
      .runFunctor, .endFunctors, .test] = some after := rfl
  refine ⟨before, queued, quitting, after, h₀, h₁, h₂, h₃, ?_⟩
  refine (executed_by_return_iff h₀ h₁ h₂ h₃ (by decide) rfl).2 ?_
  rintro ⟨-, hph | hph⟩ <;> cases hph

/-- A functor queued between the swap and the test of `quit_` is dropped: the loop returns and the
functor is still pending. -/
theorem quit_drops_functor :
    ∃ s₀ s₁ s₂ s₃ : EventLoop ℕ,
      run step new [.startLoop, .test, .poll false, .endHandling, .swap] = some s₀ ∧
      run step s₀ [.pushFrom 1 7, .wakeup 1] = some s₁ ∧
      step s₁ (.quitFrom 1) = some s₂ ∧
      run step s₂ [.wakeup 1, .endFunctors, .test] = some s₃ ∧
      s₃.phase = .returned ∧ s₃.executed[s₀.enqueued.length]? ≠ some 7 ∧
      s₃.pendingFunctors = [7] := by
  let swapped : EventLoop ℕ :=
    { looping := true, phase := .functors, callingPendingFunctors := true }
  let queued : EventLoop ℕ :=
    { swapped with
      pendingFunctors := [7], wakeupFd := 1, enqueued := [7]
      callers := Function.update (Function.update (fun _ => .outside) 1 .waking) 1 .outside }
  let quitting : EventLoop ℕ :=
    { queued with quit := true, callers := Function.update queued.callers 1 .waking }
  let after : EventLoop ℕ :=
    { quitting with
      looping := false, phase := .returned, callingPendingFunctors := false, wakeupFd := 2
      callers := Function.update quitting.callers 1 .outside }
  exact ⟨swapped, queued, quitting, after, rfl, rfl, rfl, rfl, rfl, by decide, rfl⟩

end EventLoop

end TinyNetwork
