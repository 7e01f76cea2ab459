import TinyNetwork.Net.FunctorQueue
import TinyNetwork.Net.TcpConnection

/-!
# One established connection, its loop and the threads that use it

`ConnLoop` puts a `TcpConnection` on an `EventLoop` and lets any number of threads call `send` and
`shutdown` on it.  A label is one step of one thread: every load or store of the atomic `state_`,
every critical section of the functor queue and every handler is a step of its own, so a run is an
interleaving of the threads.  The answers of `::write` come with the labels; answers the kernel
cannot give, and those that report a broken connection, are not enabled.

The trace records what happened, in order.

`View` is the same system without the phases of the loop: the functors not executed yet are one
queue.  `view_step` says that each step of `ConnLoop` is a step of `View`; the properties of the
connection are proved of `View`.
-/

namespace TinyNetwork

open Lts

/-- A thread that uses the connection; `none` is the loop thread. -/
abbrev Thread := Option Tid

/-- A `send` that found the connection in `kConnected`.  The number tells it from all others. -/
structure Sent where
  id : ℕ
  thread : Thread
  message : Bytes
  deriving DecidableEq

/-- A functor of the connection in the queue of its loop. -/
inductive Task
  | sendInLoop (x : Sent)
  | shutdownInLoop
  | callback (f : TcpConnection.Functor)
  deriving DecidableEq

/-- Where a thread is in a call on the connection. -/
inductive Call
  | outside
  | sending (x : Sent)
  | sent (x : Sent)
  | shutdownTested
  | shutdownStored
  | shutdownQueued
  | drained
  deriving DecidableEq

/-- What is observed of a run. -/
inductive Event
  | accepted (x : Sent)
  | returned (x : Sent)
  | shutdownCalled (t : Thread)
  | ran (x : Sent)
  | effect (e : TcpConnection.Effect)
  deriving DecidableEq

structure ConnLoop where
  loop : EventLoop Task := EventLoop.new
  conn : TcpConnection
  calls : Thread → Call := fun _ => .outside
  sends : ℕ := 0
  trace : List Event := []

namespace ConnLoop

open TcpConnection (Effect)

/-- The steps.  A call of `send` by another thread is `sendTest`, `sendPush`, `sendReturn`, and by
the loop thread `sendTest`, `sendRun`; likewise for `shutdown`.  `handleWrite` ends with
`handleWriteTest` when it drained the buffer. -/
inductive Label
  | loop (l : EventLoop.Label Task)
  | runFunctor (w : WriteResult)
  | handleWrite (heap : Heap) (w : WriteResult)
  | handleWriteTest
  | sendTest (t : Thread) (message : Bytes)
  | sendRun (w : WriteResult)
  | sendPush (t : Tid)
  | sendReturn (t : Tid)
  | shutdownTest (t : Thread)
  | shutdownStore (t : Thread)
  | shutdownRun
  | shutdownPush (t : Tid)
  | shutdownReturn (t : Tid)

/-- Who makes a move of the loop that does not concern the connection. -/
def mover : EventLoop.Label Task → Option Thread
  | .runFunctor => none
  | .queueInLoop _ => none
  | .pushFrom _ _ => none
  | .quitFrom t => some (some t)
  | .wakeup t => some (some t)
  | _ => some none

/-- The functors queued by a handler; these are user callbacks (`Quiet.queued`). -/
def callbacks (es : List Effect) : List Task := (es.filterMap Effect.queued).map .callback

def setCall (s : ConnLoop) (t : Thread) (c : Call) : ConnLoop :=
  { s with calls := Function.update s.calls t c }

def record (s : ConnLoop) (e : Event) : ConnLoop := { s with trace := s.trace ++ [e] }

/-- The loop thread runs a member function. -/
def perform (s : ConnLoop) (r : TcpConnection × List Effect) : ConnLoop :=
  { s with
    conn := r.1
    loop := (callbacks r.2).foldl EventLoop.queueInLoop s.loop
    trace := s.trace ++ r.2.map .effect }

/-- The thread is in user code, and may start a call. -/
def Free (s : ConnLoop) (t : Thread) : Prop :=
  s.calls t = .outside ∧
    match t with
    | none => s.loop.InUserCode
    | some t => s.loop.callers t = .outside

instance (s : ConnLoop) (t : Thread) : Decidable (s.Free t) := by
  cases t <;> unfold Free <;> infer_instance

/-- `sendInLoop` for an accepted `send`. -/
def runSend (s : ConnLoop) (x : Sent) (w : WriteResult) : Option ConnLoop :=
  if w.Fits x.message.length ∧ w.fatal = false then
    some ((s.record (.ran x)).perform (s.conn.sendInLoop x.message w))
  else none

/-- Call a functor.  A user callback is the user code that follows. -/
def runTask (s : ConnLoop) (task : Task) (w : WriteResult) : Option ConnLoop :=
  match task with
  | .sendInLoop x => s.runSend x w
  | .shutdownInLoop => some (s.perform s.conn.shutdownInLoop)
  | .callback _ => some s

def step (s : ConnLoop) : Label → Option ConnLoop
  | .loop l =>
    match mover l with
    | none => none
    | some t =>
      if s.calls t = .outside then (s.loop.step l).map fun loop => { s with loop := loop } else none
  | .runFunctor w =>
    match s.loop.functors with
    | [] => none
    | task :: _ =>
      if s.calls none = .outside then
        (s.loop.step .runFunctor).bind fun loop => runTask { s with loop := loop } task w
      else none
  | .handleWrite heap w =>
    if s.loop.phase = .handling ∧ s.calls none = .outside ∧
        w.Fits s.conn.outputBuffer.readableBytes ∧ w.fatal = false then
      let r := s.conn.writeOutput heap w
      some ((s.perform r.1).setCall none (if r.2 then .drained else .outside))
    else none
  | .handleWriteTest =>
    if s.calls none = .drained then
      some ((s.perform s.conn.shutdownDrained).setCall none .outside)
    else none
  | .sendTest t m =>
    if s.Free t then
      if s.conn.state = .kConnected then
        let x : Sent := ⟨s.sends, t, m⟩
        some { (s.record (.accepted x)).setCall t (.sending x) with sends := s.sends + 1 }
      else some s
    else none
  | .sendRun w =>
    match s.calls none with
    | .sending x =>
      (s.runSend x w).map fun s => (s.record (.returned x)).setCall none .outside
    | _ => none
  | .sendPush t =>
    match s.calls (some t) with
    | .sending x =>
      (s.loop.step (.pushFrom t (.sendInLoop x))).map fun loop =>
        { s with loop := loop }.setCall (some t) (.sent x)
    | _ => none
  | .sendReturn t =>
    match s.calls (some t) with
    | .sent x =>
      (s.loop.step (.wakeup t)).map fun loop =>
        ({ s with loop := loop }.record (.returned x)).setCall (some t) .outside
    | _ => none
  | .shutdownTest t =>
    if s.Free t then
      let s := s.record (.shutdownCalled t)
      if s.conn.state = .kConnected then some (s.setCall t .shutdownTested) else some s
    else none
  | .shutdownStore t =>
    if s.calls t = .shutdownTested then
      some ({ s with conn := s.conn.setState .kDisconnecting }.setCall t .shutdownStored)
    else none
  | .shutdownRun =>
    if s.calls none = .shutdownStored then
      some ((s.perform s.conn.shutdownInLoop).setCall none .outside)
    else none
  | .shutdownPush t =>
    if s.calls (some t) = .shutdownStored then
      (s.loop.step (.pushFrom t .shutdownInLoop)).map fun loop =>
        { s with loop := loop }.setCall (some t) .shutdownQueued
    else none
  | .shutdownReturn t =>
    if s.calls (some t) = .shutdownQueued then
      (s.loop.step (.wakeup t)).map fun loop => { s with loop := loop }.setCall (some t) .outside
    else none

/-- The connection has just been established: no functor of it is queued, no thread is in a call
on it.  The loop may be anywhere. -/
structure Established (s : ConnLoop) : Prop where
  conn : ∃ wc hwm mark, s.conn = (TcpConnection.connectEstablished
    { writeCompleteCallback := wc, highWaterMarkCallback := hwm, highWaterMark := mark }).1
  loop : Reachable EventLoop.step EventLoop.new s.loop
  backlog : s.loop.backlog = []
  calls : ∀ t, s.calls t = .outside
  trace : s.trace = []

end ConnLoop

/-! ### The view without the phases of the loop -/

/-- `ConnLoop` with one queue of functors. -/
structure View where
  tasks : List Task
  conn : TcpConnection
  calls : Thread → Call
  trace : List Event

namespace View

open TcpConnection (Effect)
open ConnLoop (Label callbacks)

def setCall (v : View) (t : Thread) (c : Call) : View :=
  { v with calls := Function.update v.calls t c }

def record (v : View) (e : Event) : View := { v with trace := v.trace ++ [e] }

def perform (v : View) (r : TcpConnection × List Effect) : View :=
  { v with
    conn := r.1
    tasks := v.tasks ++ callbacks r.2
    trace := v.trace ++ r.2.map .effect }

@[simp] theorem setCall_calls (v : View) (t : Thread) (c : Call) :
    (v.setCall t c).calls = Function.update v.calls t c := rfl

@[simp] theorem setCall_conn (v : View) (t : Thread) (c : Call) : (v.setCall t c).conn = v.conn :=
  rfl

@[simp] theorem setCall_tasks (v : View) (t : Thread) (c : Call) :
    (v.setCall t c).tasks = v.tasks := rfl

@[simp] theorem setCall_trace (v : View) (t : Thread) (c : Call) :
    (v.setCall t c).trace = v.trace := rfl

@[simp] theorem record_calls (v : View) (e : Event) : (v.record e).calls = v.calls := rfl

@[simp] theorem record_conn (v : View) (e : Event) : (v.record e).conn = v.conn := rfl

@[simp] theorem record_tasks (v : View) (e : Event) : (v.record e).tasks = v.tasks := rfl

@[simp] theorem record_trace (v : View) (e : Event) : (v.record e).trace = v.trace ++ [e] := rfl

section

variable (v : View) (r : TcpConnection × List Effect)

@[simp] theorem perform_calls : (v.perform r).calls = v.calls := rfl

@[simp] theorem perform_conn : (v.perform r).conn = r.1 := rfl

@[simp] theorem perform_tasks : (v.perform r).tasks = v.tasks ++ callbacks r.2 := rfl

@[simp] theorem perform_trace : (v.perform r).trace = v.trace ++ r.2.map .effect := rfl

end

/-- One step. -/
inductive Step (v : View) : Label → View → Prop
  | move (l : EventLoop.Label Task) : Step v (.loop l) v
  | callback (w : WriteResult) (f : TcpConnection.Functor) (rest : List Task)
      (h : v.tasks = .callback f :: rest) : Step v (.runFunctor w) { v with tasks := rest }
  | shutdownTask (w : WriteResult) (rest : List Task) (h : v.tasks = .shutdownInLoop :: rest) :
      Step v (.runFunctor w) ({ v with tasks := rest }.perform v.conn.shutdownInLoop)
  | sendTask (w : WriteResult) (x : Sent) (rest : List Task)
      (h : v.tasks = .sendInLoop x :: rest) (hfits : w.Fits x.message.length)
      (hw : w.fatal = false) :
      Step v (.runFunctor w)
        (({ v with tasks := rest }.record (.ran x)).perform (v.conn.sendInLoop x.message w))
  | handleWrite (heap : Heap) (w : WriteResult)
      (hfits : w.Fits v.conn.outputBuffer.readableBytes) (hcall : v.calls none = .outside) :
      Step v (.handleWrite heap w) ((v.perform (v.conn.writeOutput heap w).1).setCall none
        (if (v.conn.writeOutput heap w).2 then .drained else .outside))
  | handleWriteTest (hcall : v.calls none = .drained) :
      Step v .handleWriteTest ((v.perform v.conn.shutdownDrained).setCall none .outside)
  | refused (t : Thread) (m : Bytes) : Step v (.sendTest t m) v
  | accepted (t : Thread) (m : Bytes) (id : ℕ) (hcall : v.calls t = .outside)
      (hstate : v.conn.state = .kConnected) :
      Step v (.sendTest t m) ((v.record (.accepted ⟨id, t, m⟩)).setCall t (.sending ⟨id, t, m⟩))
  | sendRun (w : WriteResult) (x : Sent) (hcall : v.calls none = .sending x)
      (hfits : w.Fits x.message.length) (hw : w.fatal = false) :
      Step v (.sendRun w) ((((v.record (.ran x)).perform (v.conn.sendInLoop x.message w)).record
        (.returned x)).setCall none .outside)
  | sendPush (t : Tid) (x : Sent) (hcall : v.calls (some t) = .sending x) :
      Step v (.sendPush t)
        ({ v with tasks := v.tasks ++ [Task.sendInLoop x] }.setCall (some t) (.sent x))
  | sendReturn (t : Tid) (x : Sent) (hcall : v.calls (some t) = .sent x) :
      Step v (.sendReturn t) ((v.record (.returned x)).setCall (some t) .outside)
  | shutdownRefused (t : Thread) : Step v (.shutdownTest t) (v.record (.shutdownCalled t))
  | shutdownTest (t : Thread) (hcall : v.calls t = .outside) (hstate : v.conn.state = .kConnected) :
      Step v (.shutdownTest t) ((v.record (.shutdownCalled t)).setCall t .shutdownTested)
  | shutdownStore (t : Thread) (hcall : v.calls t = .shutdownTested) :
      Step v (.shutdownStore t)
        ({ v with conn := v.conn.setState .kDisconnecting }.setCall t .shutdownStored)
  | shutdownRun (hcall : v.calls none = .shutdownStored) :
      Step v .shutdownRun ((v.perform v.conn.shutdownInLoop).setCall none .outside)
  | shutdownPush (t : Tid) (hcall : v.calls (some t) = .shutdownStored) :
      Step v (.shutdownPush t)
        ({ v with tasks := v.tasks ++ [Task.shutdownInLoop] }.setCall (some t) .shutdownQueued)
  | shutdownReturn (t : Tid) (hcall : v.calls (some t) = .shutdownQueued) :
      Step v (.shutdownReturn t) (v.setCall (some t) .outside)

end View

namespace ConnLoop

open EventLoop (backlog QueueInv)

def view (s : ConnLoop) : View := ⟨s.loop.backlog, s.conn, s.calls, s.trace⟩

theorem backlog_foldl_queueInLoop (l : EventLoop Task) (fs : List Task) :
    (fs.foldl EventLoop.queueInLoop l).backlog = l.backlog ++ fs := by
  induction fs generalizing l with
  | nil => simp
  | cons f fs ih => rw [List.foldl_cons, ih, EventLoop.backlog_queueInLoop, List.append_assoc]; rfl

theorem queueInv_foldl_queueInLoop {l : EventLoop Task} (h : l.QueueInv) (fs : List Task) :
    (fs.foldl EventLoop.queueInLoop l).QueueInv := by
  induction fs generalizing l with
  | nil => exact h
  | cons f fs ih => exact ih (EventLoop.queueInv_pushed h (EventLoop.queueInLoop_pushed l f))

theorem view_perform (s : ConnLoop) (r : TcpConnection × List TcpConnection.Effect) :
    (s.perform r).view = s.view.perform r := by
  simp only [view, perform, View.perform, backlog_foldl_queueInLoop]

theorem mover_pushed {l : EventLoop.Label Task} {t : Thread} (h : mover l = some t) :
    l ≠ .runFunctor ∧ l.pushed = none := by
  cases l <;> simp_all [mover, EventLoop.Label.pushed]

/-- A step of the loop that neither calls nor pushes a functor is not seen. -/
theorem view_loop {s : ConnLoop} {l : EventLoop.Label Task} {loop : EventLoop Task}
    (hs : s.loop.QueueInv) (h : s.loop.step l = some loop) (hrun : l ≠ .runFunctor)
    (hpushed : l.pushed = none) : ConnLoop.view { s with loop := loop } = s.view := by
  have hback := EventLoop.backlog_step hs h hrun
  rw [hpushed, Option.toList_none, List.append_nil] at hback
  simp only [view, hback]

/-- Running a functor of the connection, once it is out of the queue. -/
theorem view_runTask {s t : ConnLoop} {v : View} {task : Task} {w : WriteResult}
    (hs : s.loop.QueueInv) (hv : { v with tasks := s.loop.backlog } = s.view)
    (htasks : v.tasks = task :: s.loop.backlog) (h : runTask s task w = some t) :
    t.loop.QueueInv ∧ View.Step v (.runFunctor w) t.view := by
  cases task with
  | sendInLoop x =>
    simp only [runTask, runSend] at h
    split_ifs at h with hw
    cases h
    refine ⟨queueInv_foldl_queueInLoop hs _, ?_⟩
    have hconn : v.conn = s.conn := congrArg View.conn hv
    rw [view_perform]
    show View.Step v _ ((s.view.record (.ran x)).perform _)
    rw [← hv, ← hconn]
    exact .sendTask w x _ htasks hw.1 hw.2
  | shutdownInLoop =>
    cases h
    refine ⟨queueInv_foldl_queueInLoop hs _, ?_⟩
    have hconn : v.conn = s.conn := congrArg View.conn hv
    rw [view_perform, ← hv, ← hconn]
    exact .shutdownTask w _ htasks
  | callback f =>
    cases h
    rw [← hv]
    exact ⟨hs, .callback w f _ htasks⟩

/-- Each step keeps the queue of the loop in order, and is a step of the view. -/
theorem view_step {s t : ConnLoop} {l : Label} (hs : s.loop.QueueInv) (h : step s l = some t) :
    t.loop.QueueInv ∧ View.Step s.view l t.view := by
  cases l with
  | loop l =>
    simp only [step] at h
    split at h
    · cases h
    · rename_i mv hmv
      split_ifs at h
      obtain ⟨loop, hloop, rfl⟩ := Option.map_eq_some_iff.1 h
      refine ⟨EventLoop.queueInv_step hs hloop, ?_⟩
      rw [view_loop hs hloop (mover_pushed hmv).1 (mover_pushed hmv).2]
      exact .move l
  | runFunctor w =>
    simp only [step] at h
    split at h
    · cases h
    · rename_i task rest htask
      split_ifs at h
      obtain ⟨loop, hloop, hrun⟩ := Option.bind_eq_some_iff.1 h
      obtain ⟨f, rest', hf, hback⟩ := EventLoop.backlog_runFunctor hloop
      rw [htask] at hf
      cases hf
      exact view_runTask (s := { s with loop := loop }) (v := s.view)
        (EventLoop.queueInv_step hs hloop) rfl hback hrun
  | handleWrite heap w =>
    simp only [step] at h
    rw [Option.ite_none_right_eq_some] at h
    obtain ⟨hok, h⟩ := h
    cases h
    refine ⟨queueInv_foldl_queueInLoop hs _, ?_⟩
    have hstep := View.Step.handleWrite (v := s.view) heap w hok.2.2.1 hok.2.1
    rwa [show s.view.conn = s.conn from rfl, ← view_perform] at hstep
  | handleWriteTest =>
    simp only [step] at h
    split_ifs at h with hcall
    cases h
    refine ⟨queueInv_foldl_queueInLoop hs _, ?_⟩
    have hstep := View.Step.handleWriteTest (v := s.view) hcall
    rwa [show s.view.conn = s.conn from rfl, ← view_perform] at hstep
  | sendTest t m =>
    simp only [step] at h
    split_ifs at h with hfree hstate
    · cases h
      exact ⟨hs, .accepted t m s.sends hfree.1 hstate⟩
    · cases h
      exact ⟨hs, .refused t m⟩
  | sendRun w =>
    simp only [step] at h
    split at h
    · rename_i x hcall
      obtain ⟨u, hu, rfl⟩ := Option.map_eq_some_iff.1 h
      simp only [runSend] at hu
      split_ifs at hu with hw
      cases hu
      refine ⟨queueInv_foldl_queueInLoop hs _, ?_⟩
      have hstep := View.Step.sendRun (v := s.view) w x hcall hw.1 hw.2
      rwa [show s.view.record (.ran x) = (s.record (.ran x)).view from rfl,
        show s.view.conn = s.conn from rfl, ← view_perform] at hstep
    · cases h
  | sendPush t =>
    simp only [step] at h
    split at h
    · rename_i x hcall
      obtain ⟨loop, hloop, rfl⟩ := Option.map_eq_some_iff.1 h
      refine ⟨EventLoop.queueInv_step hs hloop, ?_⟩
      have hback := EventLoop.backlog_step hs hloop (by simp)
      have hstep := View.Step.sendPush (v := s.view) t x hcall
      rwa [show s.view.tasks ++ [Task.sendInLoop x] = loop.backlog from hback.symm] at hstep
    · cases h
  | sendReturn t =>
    simp only [step] at h
    split at h
    · rename_i x hcall
      obtain ⟨loop, hloop, rfl⟩ := Option.map_eq_some_iff.1 h
      refine ⟨EventLoop.queueInv_step hs hloop, ?_⟩
      show View.Step s.view _ (((ConnLoop.view { s with loop := loop }).record _).setCall _ _)
      rw [view_loop hs hloop (by simp) rfl]
      exact .sendReturn t x hcall
    · cases h
  | shutdownTest t =>
    simp only [step] at h
    split_ifs at h with hfree hstate
    · cases h
      exact ⟨hs, .shutdownTest t hfree.1 hstate⟩
    · cases h
      exact ⟨hs, .shutdownRefused t⟩
  | shutdownStore t =>
    simp only [step] at h
    split_ifs at h with hcall
    cases h
    exact ⟨hs, .shutdownStore t hcall⟩
  | shutdownRun =>
    simp only [step] at h
    split_ifs at h with hcall
    cases h
    refine ⟨queueInv_foldl_queueInLoop hs _, ?_⟩
    have hstep := View.Step.shutdownRun (v := s.view) hcall
    rwa [show s.view.conn = s.conn from rfl, ← view_perform] at hstep
  | shutdownPush t =>
    simp only [step] at h
    split_ifs at h with hcall
    obtain ⟨loop, hloop, rfl⟩ := Option.map_eq_some_iff.1 h
    refine ⟨EventLoop.queueInv_step hs hloop, ?_⟩
    have hback := EventLoop.backlog_step hs hloop (by simp)
    have hstep := View.Step.shutdownPush (v := s.view) t hcall
    rwa [show s.view.tasks ++ [Task.shutdownInLoop] = loop.backlog from hback.symm] at hstep
  | shutdownReturn t =>
    simp only [step] at h
    split_ifs at h with hcall
    obtain ⟨loop, hloop, rfl⟩ := Option.map_eq_some_iff.1 h
    refine ⟨EventLoop.queueInv_step hs hloop, ?_⟩
    show View.Step s.view _ ((ConnLoop.view { s with loop := loop }).setCall _ _)
    rw [view_loop hs hloop (by simp) rfl]
    exact .shutdownReturn t hcall

end ConnLoop

end TinyNetwork
