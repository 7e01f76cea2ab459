import TinyNetwork.Net.ConnLoop
import TinyNetwork.Net.EPollPoller

/-!
# A connection from its first to its last callback

`Dispatch` is one connection with all that acts on it: the poller, which reports events for its
descriptor; `Channel::handleEvent`, which calls several handlers for one report; the functors queued
on its loop; the threads that call `send` and `shutdown`; the server, which removes it from
`connections_` after a close or drops it in `~TcpServer`.

A label is one step of one thread; every load and every store of the atomic `state_` is a step of
its own.  The answers of `::readv` and `::write` and the events reported come with the labels.
The queue of the loop holds the functors of this connection; the loop takes one when it is not
handling events.  A failed assertion ends the program (`aborted`).

The functor `removeConnectionInLoop` is bound to the server's `this`: once the server is gone it
is not run (what it would do then is not defined), and neither is a `closeCallback_`.
-/

namespace TinyNetwork

open Lts
open TcpConnection (Effect)

/-- `revents_`: which of the tested bits are set. -/
structure Revents where
  EPOLLIN : Bool := false
  EPOLLPRI : Bool := false
  EPOLLOUT : Bool := false
  EPOLLERR : Bool := false
  EPOLLHUP : Bool := false
  deriving DecidableEq

/-- The callbacks of a channel. -/
inductive Handler
  | closeCallback
  | errorCallback
  | readCallback
  | writeCallback
  deriving DecidableEq

/-- The callbacks that `Channel::handleEventWithGuard` calls, in order. -/
def Revents.handlers (revents : Revents) : List Handler :=
  (if revents.EPOLLHUP && !revents.EPOLLIN then [.closeCallback] else []) ++
  (if revents.EPOLLERR then [.errorCallback] else []) ++
  (if revents.EPOLLIN || revents.EPOLLPRI then [.readCallback] else []) ++
  (if revents.EPOLLOUT then [.writeCallback] else [])

/-- What the connection did, with the calls of `messageCallback_`. -/
inductive ConnEvent
  | effect (e : Effect)
  | messageCallback
  deriving DecidableEq

namespace TcpConnection

/-- What `connectDestroyed` does in the branch of its test of `state_`. -/
def destroyConnected (c : TcpConnection) : TcpConnection × List Effect :=
  let c := c.setState .kDisconnected
  let c := { c with channel := c.channel.disableAll }
  (c, [.updateChannel c.channel, .connectionCallback c.connected])

/-- `channel_->remove()`; `none` when its assertion fails. -/
def removeChannel (c : TcpConnection) : Option (TcpConnection × List Effect) :=
  if c.channel.isNoneEvent then some (c, [.removeChannel]) else none

/-- `connectDestroyed` is the test, the branch and the removal. -/
theorem connectDestroyed_eq (c : TcpConnection) :
    c.connectDestroyed =
      (if c.state = .kConnected then c.destroyConnected else (c, [])).1.removeChannel.map
        fun r => (r.1, (if c.state = .kConnected then c.destroyConnected else (c, [])).2 ++ r.2) := by
  unfold connectDestroyed
  by_cases hstate : c.state = .kConnected
  · simp [hstate, removeChannel, destroyConnected, Channel.isNoneEvent, Channel.disableAll]
  · simp only [hstate, if_false, removeChannel]
    split_ifs <;> rfl

/-! ### What writing leaves alone -/

/-- The effects that call no callback and do not remove the channel. -/
def Effect.Plain : Effect → Prop
  | write .. | shutdownWrite | queueInLoop _ | updateChannel _ => True
  | removeChannel | connectionCallback _ | closeCallback => False

/-- `r` is what came out of writing on `c`: the state and the read interest are as before, nobody
was notified, and nothing happened to a closed connection. -/
structure Steady (c : TcpConnection) (r : TcpConnection × List Effect) : Prop where
  state : r.1.state = c.state
  reading : r.1.channel.reading = c.channel.reading
  updates : ∀ ch, .updateChannel ch ∈ r.2 → ch.reading = c.channel.reading
  plain : ∀ e ∈ r.2, e.Plain
  closed : c.state = .kDisconnected → c.channel.isNoneEvent = true →
    r.1 = c ∧ ∀ ch, .updateChannel ch ∉ r.2

theorem steady_shutdownInLoop (c : TcpConnection) : Steady c c.shutdownInLoop := by
  refine ⟨rfl, rfl, ?_, ?_, fun _ _ => ⟨rfl, ?_⟩⟩ <;>
  · unfold shutdownInLoop
    split_ifs <;> simp [Effect.Plain]

theorem steady_sendInLoop (c : TcpConnection) (m : Bytes) (w : WriteResult) :
    Steady c (c.sendInLoop m w) := by
  by_cases hstate : c.state = .kDisconnected
  · rw [sendInLoop, if_pos hstate]
    exact ⟨rfl, rfl, by simp, by simp, fun _ _ => ⟨rfl, by simp⟩⟩
  · refine ⟨?_, ?_, ?_, ?_, fun h => absurd h hstate⟩
    all_goals
      simp only [sendInLoop, if_neg hstate, bufferRemaining, Channel.enableWriting]
      split_ifs <;> simp [Effect.Plain]

theorem Steady.append {c : TcpConnection} {r : TcpConnection × List Effect} (h : Steady c r)
    {es : List Effect} (hes : es = [] ∨ es = [.shutdownWrite]) : Steady c (r.1, r.2 ++ es) := by
  rcases hes with rfl | rfl
  · rwa [List.append_nil]
  · refine ⟨h.state, h.reading, ?_, ?_, fun hstate hnone => ⟨(h.closed hstate hnone).1, ?_⟩⟩
    · simpa using h.updates
    · simpa [Effect.Plain, or_imp, forall_and] using h.plain
    · simpa using (h.closed hstate hnone).2

theorem shutdownDrained_snd (c : TcpConnection) :
    c.shutdownDrained.2 = [] ∨ c.shutdownDrained.2 = [.shutdownWrite] := by
  unfold shutdownDrained shutdownInLoop
  split_ifs
  · exact .inl rfl
  · exact .inr rfl
  · exact .inl rfl

theorem steady_writeOutput (c : TcpConnection) (heap : Heap) (w : WriteResult) :
    Steady c (c.writeOutput heap w).1 := by
  by_cases hw : c.channel.isWriting = true
  · refine ⟨?_, ?_, ?_, ?_, fun _ hnone => ?_⟩
    · simp only [writeOutput, hw, if_true]
      split_ifs <;> rfl
    · simp only [writeOutput, hw, if_true]
      split_ifs <;> rfl
    · simp only [writeOutput, hw, if_true, Channel.disableWriting]
      split_ifs <;> simp
    · simp only [writeOutput, hw, if_true]
      split_ifs <;> simp [Effect.Plain]
    · simp only [Channel.isWriting] at hw
      simp [Channel.isNoneEvent, hw] at hnone
  · rw [writeOutput, if_neg hw]
    exact ⟨rfl, rfl, by simp, by simp, fun _ _ => ⟨rfl, by simp⟩⟩

theorem steady_handleWrite (c : TcpConnection) (heap : Heap) (w : WriteResult) :
    Steady c (c.handleWrite heap w) := by
  have hout := steady_writeOutput c heap w
  unfold handleWrite
  rcases hwrite : c.writeOutput heap w with ⟨⟨d, es⟩, drained⟩
  rw [hwrite] at hout
  cases drained with
  | true =>
    simp only [shutdownDrained_fst]
    exact hout.append (shutdownDrained_snd d)
  | false => exact hout

end TcpConnection

/-- A functor of the connection in the queue of its loop. -/
inductive LoopTask
  | connectEstablished
  | sendInLoop (message : Bytes)
  | shutdownInLoop
  | callback (f : TcpConnection.Functor)
  | connectDestroyed
  deriving DecidableEq

/-- Where a thread is in a call of `send` or `shutdown`. -/
inductive UserCall
  | outside
  | sending (message : Bytes)
  | shutdownTested
  | shutdownStored
  deriving DecidableEq

/-- The loop thread is in `connectDestroyed` between its test and its store when `destroying` is
set; `handlers` are those that `handleEvent` has still to call; `removing` counts the functors
`removeConnectionInLoop` on the loop of the server. -/
structure Dispatch where
  conn : TcpConnection
  reg : Registration := {}
  tasks : List LoopTask := [.connectEstablished]
  handlers : List Handler := []
  calls : Thread → UserCall := fun _ => .outside
  destroying : Bool := false
  inConnections : Bool := true
  serverAlive : Bool := true
  removing : ℕ := 0
  aborted : Bool := false
  trace : List ConnEvent := []

namespace Dispatch

/-- The steps.  `send` by another thread is `sendTest` and `sendPush`, by the loop thread
`sendTest` and `sendRun`; likewise for `shutdown`.  `connectDestroyed` begins when its functor is
run (or `~TcpServer` calls it) and may end with `destroyStore`. -/
inductive Label
  | poll (revents : Revents)
  | handleClose
  | handleError
  | handleRead (n : ℤ)
  | handleWrite (heap : Heap) (w : WriteResult)
  | runFunctor (w : WriteResult)
  | destroyStore
  | sendTest (t : Thread) (message : Bytes)
  | sendRun (w : WriteResult)
  | sendPush (t : Tid)
  | shutdownTest (t : Thread)
  | shutdownStore (t : Thread)
  | shutdownRun
  | shutdownPush (t : Tid)
  | removeConnectionInLoop
  | destroyServer (inLoop : Bool)

/-- A connection that `newConnection` has just made. -/
def new (conn : TcpConnection) : Dispatch := { conn := conn }

/-- The same with what the server and the user set: the two optional callbacks and the mark. -/
def accepted (writeComplete highWater : Bool) (mark : ℕ) : Dispatch :=
  new {
    writeCompleteCallback := writeComplete
    highWaterMarkCallback := highWater
    highWaterMark := mark }

/-- The loop thread is in user code or in the loop. -/
def LoopFree (s : Dispatch) : Prop := s.calls none = .outside ∧ s.destroying = false

instance (s : Dispatch) : Decidable s.LoopFree := by unfold LoopFree; infer_instance

def setCall (s : Dispatch) (t : Thread) (c : UserCall) : Dispatch :=
  { s with calls := Function.update s.calls t c }

/-- The poller is told what happens to the channel; `none` when an assertion fails. -/
def register (r : Registration) : List Effect → Option Registration
  | [] => some r
  | .updateChannel ch :: es => (r.updateChannel ch).bind fun r => register r es
  | .removeChannel :: es => register (r.removeChannel {}) es
  | _ :: es => register r es

/-- The functors queued by a member function. -/
def queued (es : List Effect) : List LoopTask := (es.filterMap Effect.queued).map .callback

/-- The loop thread runs a member function. -/
def perform (s : Dispatch) (r : TcpConnection × List Effect) : Dispatch :=
  match register s.reg r.2 with
  | none => { s with aborted := true }
  | some reg =>
    { s with
      conn := r.1
      reg := reg
      tasks := s.tasks ++ queued r.2
      removing := s.removing + if s.serverAlive then r.2.count .closeCallback else 0
      trace := s.trace ++ r.2.map .effect }

/-- `handleRead`, when `readFd` returns `n`. -/
def handleRead (s : Dispatch) (n : ℤ) : Dispatch :=
  if 0 < n then { s with trace := s.trace ++ [.messageCallback] }
  else if n = 0 then s.perform s.conn.handleClose
  else s

/-- The end of `connectDestroyed`. -/
def finishDestroyed (s : Dispatch) : Dispatch :=
  match s.conn.removeChannel with
  | some r => s.perform r
  | none => { s with aborted := true }

/-- The test of `connectDestroyed`. -/
def connectDestroyed (s : Dispatch) : Dispatch :=
  if s.conn.state = .kConnected then { s with destroying := true } else s.finishDestroyed

/-- Run a functor.  A user callback is the user code that follows. -/
def runTask (s : Dispatch) (task : LoopTask) (w : WriteResult) : Option Dispatch :=
  match task with
  | .connectEstablished => some (s.perform s.conn.connectEstablished)
  | .sendInLoop m => if w.Fits m.length then some (s.perform (s.conn.sendInLoop m w)) else none
  | .shutdownInLoop => some (s.perform s.conn.shutdownInLoop)
  | .callback _ => some s
  | .connectDestroyed => some s.connectDestroyed

def step (s : Dispatch) (l : Label) : Option Dispatch :=
  if s.aborted then none
  else
    match l with
    | .poll revents =>
      -- only what is in the interest list is reported
      if s.LoopFree ∧ s.handlers = [] ∧ s.reg.interest.isSome then
        some { s with handlers := revents.handlers }
      else none
    | .handleClose =>
      match s.handlers with
      | .closeCallback :: rest =>
        if s.LoopFree then some ({ s with handlers := rest }.perform s.conn.handleClose) else none
      | _ => none
    | .handleError =>
      match s.handlers with
      | .errorCallback :: rest => if s.LoopFree then some { s with handlers := rest } else none
      | _ => none
    | .handleRead n =>
      match s.handlers with
      | .readCallback :: rest =>
        if s.LoopFree then some ({ s with handlers := rest }.handleRead n) else none
      | _ => none
    | .handleWrite heap w =>
      match s.handlers with
      | .writeCallback :: rest =>
        if s.LoopFree ∧ w.Fits s.conn.outputBuffer.readableBytes then
          some ({ s with handlers := rest }.perform (s.conn.handleWrite heap w))
        else none
      | _ => none
    | .runFunctor w =>
      match s.tasks with
      | task :: rest =>
        if s.LoopFree ∧ s.handlers = [] then runTask { s with tasks := rest } task w else none
      | [] => none
    | .destroyStore =>
      if s.destroying then
        some ({ s with destroying := false }.perform s.conn.destroyConnected).finishDestroyed
      else none
    | .sendTest t m =>
      if s.calls t = .outside ∧ (t = none → s.destroying = false) then
        some (if s.conn.state = .kConnected then s.setCall t (.sending m) else s)
      else none
    | .sendRun w =>
      match s.calls none with
      | .sending m =>
        if w.Fits m.length then
          some ((s.perform (s.conn.sendInLoop m w)).setCall none .outside)
        else none
      | _ => none
    | .sendPush t =>
      match s.calls (some t) with
      | .sending m =>
        some ({ s with tasks := s.tasks ++ [LoopTask.sendInLoop m] }.setCall (some t) .outside)
      | _ => none
    | .shutdownTest t =>
      if s.calls t = .outside ∧ (t = none → s.destroying = false) then
        some (if s.conn.state = .kConnected then s.setCall t .shutdownTested else s)
      else none
    | .shutdownStore t =>
      if s.calls t = .shutdownTested then
        some ({ s with conn := s.conn.setState .kDisconnecting }.setCall t .shutdownStored)
      else none
    | .shutdownRun =>
      if s.calls none = .shutdownStored then
        some ((s.perform s.conn.shutdownInLoop).setCall none .outside)
      else none
    | .shutdownPush t =>
      if s.calls (some t) = .shutdownStored then
        some ({ s with tasks := s.tasks ++ [LoopTask.shutdownInLoop] }.setCall (some t) .outside)
      else none
    | .removeConnectionInLoop =>
      if 0 < s.removing ∧ s.serverAlive then
        some { s with
          removing := s.removing - 1
          inConnections := false
          tasks := s.tasks ++ [LoopTask.connectDestroyed] }
      else none
    | .destroyServer inLoop =>
      -- in the thread of its own loop a connection was established by `newConnection` at once
      if s.serverAlive ∧ (inLoop → s.LoopFree ∧ .connectEstablished ∉ s.tasks) then
        let t := { s with serverAlive := false, inConnections := false }
        some (if s.inConnections then
          if inLoop then t.connectDestroyed
          else { t with tasks := t.tasks ++ [LoopTask.connectDestroyed] }
        else t)
      else none

/-- What a step does, label by label. -/
inductive StepTo (s : Dispatch) : Label → Dispatch → Prop
  | poll (revents : Revents) (hfree : s.LoopFree) (hdone : s.handlers = [])
      (hreg : s.reg.interest.isSome) :
      StepTo s (.poll revents) { s with handlers := revents.handlers }
  | handleClose (rest : List Handler) (hfree : s.LoopFree)
      (hhandlers : s.handlers = .closeCallback :: rest) :
      StepTo s .handleClose ({ s with handlers := rest }.perform s.conn.handleClose)
  | handleError (rest : List Handler) (hfree : s.LoopFree)
      (hhandlers : s.handlers = .errorCallback :: rest) :
      StepTo s .handleError { s with handlers := rest }
  | handleRead (n : ℤ) (rest : List Handler) (hfree : s.LoopFree)
      (hhandlers : s.handlers = .readCallback :: rest) :
      StepTo s (.handleRead n) ({ s with handlers := rest }.handleRead n)
  | handleWrite (heap : Heap) (w : WriteResult) (rest : List Handler) (hfree : s.LoopFree)
      (hhandlers : s.handlers = .writeCallback :: rest)
      (hfits : w.Fits s.conn.outputBuffer.readableBytes) :
      StepTo s (.handleWrite heap w) ({ s with handlers := rest }.perform (s.conn.handleWrite heap w))
  | runFunctor (w : WriteResult) (task : LoopTask) (rest : List LoopTask) (t : Dispatch)
      (hfree : s.LoopFree) (hdone : s.handlers = []) (htasks : s.tasks = task :: rest)
      (hrun : runTask { s with tasks := rest } task w = some t) :
      StepTo s (.runFunctor w) t
  | destroyStore (hdestroying : s.destroying = true) :
      StepTo s .destroyStore
        ({ s with destroying := false }.perform s.conn.destroyConnected).finishDestroyed
  | sendTest (t : Thread) (m : Bytes) (hcall : s.calls t = .outside)
      (hstate : s.conn.state = .kConnected) :
      StepTo s (.sendTest t m) (s.setCall t (.sending m))
  | sendRefused (t : Thread) (m : Bytes) (hstate : s.conn.state ≠ .kConnected) :
      StepTo s (.sendTest t m) s
  | sendRun (m : Bytes) (w : WriteResult) (hcall : s.calls none = .sending m)
      (hfits : w.Fits m.length) :
      StepTo s (.sendRun w) ((s.perform (s.conn.sendInLoop m w)).setCall none .outside)
  | sendPush (t : Tid) (m : Bytes) (hcall : s.calls (some t) = .sending m) :
      StepTo s (.sendPush t)
        ({ s with tasks := s.tasks ++ [LoopTask.sendInLoop m] }.setCall (some t) .outside)
  | shutdownTest (t : Thread) (hcall : s.calls t = .outside) (hstate : s.conn.state = .kConnected) :
      StepTo s (.shutdownTest t) (s.setCall t .shutdownTested)
  | shutdownRefused (t : Thread) (hstate : s.conn.state ≠ .kConnected) :
      StepTo s (.shutdownTest t) s
  | shutdownStore (t : Thread) (hcall : s.calls t = .shutdownTested) :
      StepTo s (.shutdownStore t)
        ({ s with conn := s.conn.setState .kDisconnecting }.setCall t .shutdownStored)
  | shutdownRun (hcall : s.calls none = .shutdownStored) :
      StepTo s .shutdownRun ((s.perform s.conn.shutdownInLoop).setCall none .outside)
  | shutdownPush (t : Tid) (hcall : s.calls (some t) = .shutdownStored) :
      StepTo s (.shutdownPush t)
        ({ s with tasks := s.tasks ++ [LoopTask.shutdownInLoop] }.setCall (some t) .outside)
  | removeConnectionInLoop (hremoving : 0 < s.removing) (halive : s.serverAlive = true) :
      StepTo s .removeConnectionInLoop { s with
        removing := s.removing - 1
        inConnections := false
        tasks := s.tasks ++ [LoopTask.connectDestroyed] }
  | serverGone (inLoop : Bool) (hin : s.inConnections = false) :
      StepTo s (.destroyServer inLoop) { s with serverAlive := false, inConnections := false }
  | serverPush (hin : s.inConnections = true) :
      StepTo s (.destroyServer false) { s with
        serverAlive := false
        inConnections := false
        tasks := s.tasks ++ [LoopTask.connectDestroyed] }
  | serverRun (hin : s.inConnections = true) (hfree : s.LoopFree)
      (hyoung : .connectEstablished ∉ s.tasks) :
      StepTo s (.destroyServer true)
        { s with serverAlive := false, inConnections := false }.connectDestroyed

/-- The inversion of `step`. -/
theorem stepTo_of_step {s t : Dispatch} {l : Label} (h : step s l = some t) :
    ¬ s.aborted = true ∧ StepTo s l t := by
  have hlive : ¬ s.aborted = true := fun ha => by
    unfold step at h
    rw [if_pos ha] at h
    cases h
  refine ⟨hlive, ?_⟩
  unfold step at h
  rw [if_neg hlive] at h
  cases l with
  | poll revents =>
    simp only at h
    split_ifs at h with hc
    cases h
    exact .poll revents hc.1 hc.2.1 hc.2.2
  | handleClose =>
    simp only at h
    split at h
    · rename_i rest hrest
      split_ifs at h with hfree
      cases h
      exact .handleClose rest hfree hrest
    · cases h
  | handleError =>
    simp only at h
    split at h
    · rename_i rest hrest
      split_ifs at h with hfree
      cases h
      exact .handleError rest hfree hrest
    · cases h
  | handleRead n =>
    simp only at h
    split at h
    · rename_i rest hrest
      split_ifs at h with hfree
      cases h
      exact .handleRead n rest hfree hrest
    · cases h
  | handleWrite heap w =>
    simp only at h
    split at h
    · rename_i rest hrest
      split_ifs at h with hc
      cases h
      exact .handleWrite heap w rest hc.1 hrest hc.2
    · cases h
  | runFunctor w =>
    simp only at h
    split at h
    · rename_i task rest htasks
      split_ifs at h with hc
      exact .runFunctor w task rest t hc.1 hc.2 htasks h
    · cases h
  | destroyStore =>
    simp only at h
    split_ifs at h with hc
    cases h
    exact .destroyStore hc
  | sendTest tid m =>
    simp only at h
    split_ifs at h with hc hstate
    · cases h
      exact .sendTest tid m hc.1 hstate
    · cases h
      exact .sendRefused tid m hstate
  | sendRun w =>
    simp only at h
    split at h
    · rename_i m hcall
      split_ifs at h with hfits
      cases h
      exact .sendRun m w hcall hfits
    · cases h
  | sendPush tid =>
    simp only at h
    split at h
    · rename_i m hcall
      cases h
      exact .sendPush tid m hcall
    · cases h
  | shutdownTest tid =>
    simp only at h
    split_ifs at h with hc hstate
    · cases h
      exact .shutdownTest tid hc.1 hstate
    · cases h
      exact .shutdownRefused tid hstate
  | shutdownStore tid =>
    simp only at h
    split_ifs at h with hcall
    cases h
    exact .shutdownStore tid hcall
  | shutdownRun =>
    simp only at h
    split_ifs at h with hcall
    cases h
    exact .shutdownRun hcall
  | shutdownPush tid =>
    simp only at h
    split_ifs at h with hcall
    cases h
    exact .shutdownPush tid hcall
  | removeConnectionInLoop =>
    simp only at h
    split_ifs at h with hc
    cases h
    exact .removeConnectionInLoop hc.1 hc.2
  | destroyServer inLoop =>
    simp only at h
    split_ifs at h with hc hin hloop
    · cases h
      subst hloop
      exact .serverRun hin (hc.2 rfl).1 (hc.2 rfl).2
    · cases h
      rw [Bool.not_eq_true] at hloop
      subst hloop
      exact .serverPush hin
    · cases h
      exact .serverGone inLoop (Bool.not_eq_true _ ▸ hin)

/-- What running a functor does: it establishes the connection, writes, hands over to the user, or
begins to destroy the connection. -/
theorem runTask_cases {s t : Dispatch} {task : LoopTask} {w : WriteResult}
    (h : s.runTask task w = some t) :
    (task = .connectEstablished ∧ t = s.perform s.conn.connectEstablished) ∨
      (∃ r, TcpConnection.Steady s.conn r ∧ t = s.perform r) ∨ t = s ∨ t = s.connectDestroyed := by
  cases task with
  | connectEstablished =>
    cases h
    exact .inl ⟨rfl, rfl⟩
  | sendInLoop m =>
    simp only [runTask] at h
    split_ifs at h
    cases h
    exact .inr (.inl ⟨_, TcpConnection.steady_sendInLoop s.conn m w, rfl⟩)
  | shutdownInLoop =>
    cases h
    exact .inr (.inl ⟨_, TcpConnection.steady_shutdownInLoop s.conn, rfl⟩)
  | callback f =>
    cases h
    exact .inr (.inr (.inl rfl))
  | connectDestroyed =>
    cases h
    exact .inr (.inr (.inr rfl))

/-! ### What the loop thread tells the poller -/

theorem register_wellFormed {r : Registration} (hr : r.WellFormed) (es : List Effect) :
    ∃ r', register r es = some r' ∧ r'.WellFormed := by
  induction es generalizing r with
  | nil => exact ⟨r, rfl, hr⟩
  | cons e es ih =>
    cases e with
    | updateChannel ch =>
      obtain ⟨r₁, hupdate, hr₁, -⟩ := hr.updateChannel ch
      obtain ⟨r', hrest, hr'⟩ := ih hr₁
      exact ⟨r', by rw [register, hupdate, Option.bind_some, hrest], hr'⟩
    | removeChannel =>
      refine ih ?_
      rw [hr.removeChannel]
      exact ⟨by simp, by simp⟩
    | write _ _ | shutdownWrite | queueInLoop _ | connectionCallback _ | closeCallback =>
      exact ih hr

/-- Without an update of the channel the poller is not called. -/
theorem register_of_notMem {r : Registration} {es : List Effect}
    (hupdate : ∀ ch, Effect.updateChannel ch ∉ es) (hremove : Effect.removeChannel ∉ es) :
    register r es = some r := by
  induction es with
  | nil => rfl
  | cons e es ih =>
    have hrest := ih (fun ch hch => hupdate ch (List.mem_cons_of_mem _ hch))
      fun h => hremove (List.mem_cons_of_mem _ h)
    cases e with
    | updateChannel ch => exact absurd List.mem_cons_self (hupdate ch)
    | removeChannel => exact absurd List.mem_cons_self hremove
    | write _ _ | shutdownWrite | queueInLoop _ | connectionCallback _ | closeCallback =>
      exact hrest

/-- A registered channel that keeps its read interest stays registered. -/
theorem register_of_reading {r : Registration} (hr : r.WellFormed) (hindex : r.index = .kAdded)
    {es : List Effect} (hplain : ∀ e ∈ es, e.Plain)
    (hes : ∀ ch, Effect.updateChannel ch ∈ es → ch.reading = true) :
    ∃ r', register r es = some r' ∧ r'.index = .kAdded := by
  induction es generalizing r with
  | nil => exact ⟨r, rfl, hindex⟩
  | cons e es ih =>
    have hplain' : ∀ e ∈ es, e.Plain := fun e he => hplain e (List.mem_cons_of_mem _ he)
    have hes' : ∀ ch, Effect.updateChannel ch ∈ es → ch.reading = true :=
      fun ch hch => hes ch (List.mem_cons_of_mem _ hch)
    cases e with
    | updateChannel ch =>
      have hsome : ch.isNoneEvent = false := by
        simp [Channel.isNoneEvent, hes ch List.mem_cons_self]
      obtain ⟨r₁, hupdate, hr₁, -⟩ := hr.updateChannel ch
      rw [register, hupdate, Option.bind_some]
      refine ih hr₁ ?_ hplain' hes'
      rw [Registration.updateChannel_of_eq hr hindex, hsome] at hupdate
      cases hupdate
      exact hindex
    | removeChannel => exact absurd (hplain _ List.mem_cons_self) (by simp [Effect.Plain])
    | write _ _ | shutdownWrite | queueInLoop _ | connectionCallback _ | closeCallback =>
      exact ih hr hindex hplain' hes'

/-- No assertion of the poller fails. -/
theorem perform_eq {s : Dispatch} (hr : s.reg.WellFormed) (r : TcpConnection × List Effect) :
    ∃ reg, register s.reg r.2 = some reg ∧ reg.WellFormed ∧
      s.perform r = { s with
        conn := r.1
        reg := reg
        tasks := s.tasks ++ queued r.2
        removing := s.removing + if s.serverAlive then r.2.count .closeCallback else 0
        trace := s.trace ++ r.2.map .effect } := by
  obtain ⟨reg, hreg, hwf⟩ := register_wellFormed hr r.2
  exact ⟨reg, hreg, hwf, by rw [perform, hreg]⟩

theorem perform_conn {s : Dispatch} (hr : s.reg.WellFormed) (r : TcpConnection × List Effect) :
    (s.perform r).conn = r.1 := by
  obtain ⟨reg, -, -, hperform⟩ := perform_eq hr r
  rw [hperform]

theorem finishDestroyed_conn (s : Dispatch) : s.finishDestroyed.conn = s.conn := by
  unfold finishDestroyed TcpConnection.removeChannel
  split_ifs
  · simp only [perform]
    split <;> rfl
  · rfl

theorem connectDestroyed_conn (s : Dispatch) : s.connectDestroyed.conn = s.conn := by
  unfold connectDestroyed
  split_ifs
  · rfl
  · exact finishDestroyed_conn s

theorem connectEstablished_notMem_queued (es : List Effect) :
    LoopTask.connectEstablished ∉ queued es := by
  simp [queued]

end Dispatch

end TinyNetwork
