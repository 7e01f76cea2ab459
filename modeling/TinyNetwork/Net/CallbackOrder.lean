import TinyNetwork.Net.Teardown
import TinyNetwork.Lib.Trace

/-!
# The callbacks of a connection

The user is told once that the connection is up and at most once, later, that it is down; the
server is told at most once; no message is handed over after the down notification
(`OnceEach`).  `callbacks_once` proves it for the runs in which nothing that belongs to an open
connection happens to one in state `kDisconnected`:

* `handleClose` leaves the read callback to be called when the report had `EPOLLHUP` and `EPOLLPRI`
  without `EPOLLIN`; `handleRead` does not test `state_`, and closes the connection again or hands
  over a message (`handleRead_after_handleClose`);
* a late store of `shutdown()` brings the connection back to `kDisconnecting`, where writing can be
  enabled and the poller report a close again.

While the connection is up it reads and is registered with the poller (`Up`); afterwards it is not
in the interest list, so that no event is reported for it (`Ended`).
-/

namespace TinyNetwork

namespace ConnEvent

open Trace
open TcpConnection (Effect)

abbrev notifyUp : ConnEvent := .effect (.connectionCallback true)

abbrev notifyDown : ConnEvent := .effect (.connectionCallback false)

abbrev notifyClosed : ConnEvent := .effect .closeCallback

/-- Each callback comes as often as it may, and in its order. -/
structure OnceEach (tr : List ConnEvent) : Prop where
  up : tr.count notifyUp = 1
  down : tr.count notifyDown ≤ 1
  closed : tr.count notifyClosed ≤ 1
  order : Around (· = notifyDown) (notifyUp ∈ ·) (· ≠ .messageCallback) tr

/-- An event that is none of these callbacks. -/
def Silent (e : ConnEvent) : Prop := e ≠ notifyUp ∧ e ≠ notifyDown ∧ e ≠ notifyClosed ∧ e ≠ .messageCallback

theorem silent_of_plain {es : List Effect} (h : ∀ e ∈ es, e.Plain) :
    ∀ e ∈ es.map ConnEvent.effect, Silent e := by
  intro e he
  obtain ⟨x, hx, rfl⟩ := List.mem_map.1 he
  have hplain := h x hx
  cases x <;> simp_all [Silent, Effect.Plain]

theorem count_append_silent {tr es : List ConnEvent} {e : ConnEvent} (hes : e ∉ es) :
    (tr ++ es).count e = tr.count e := by
  rw [List.count_append, List.count_eq_zero_of_not_mem hes, Nat.add_zero]

theorem OnceEach.silent {tr es : List ConnEvent} (h : OnceEach tr) (hes : ∀ e ∈ es, Silent e) :
    OnceEach (tr ++ es) := by
  refine ⟨?_, ?_, ?_, ?_⟩
  · rw [count_append_silent fun he => (hes _ he).1 rfl]
    exact h.up
  · rw [count_append_silent fun he => (hes _ he).2.1 rfl]
    exact h.down
  · rw [count_append_silent fun he => (hes _ he).2.2.1 rfl]
    exact h.closed
  · exact h.order.append (fun e he => (hes e he).2.1) fun _ e he => (hes e he).2.2.2

theorem OnceEach.message {tr : List ConnEvent} (h : OnceEach tr) (hdown : notifyDown ∉ tr) :
    OnceEach (tr ++ [.messageCallback]) := by
  refine ⟨?_, ?_, ?_, ?_⟩
  · rw [count_append_silent (by simp)]
    exact h.up
  · rw [count_append_silent (by simp)]
    exact h.down
  · rw [count_append_silent (by simp)]
    exact h.closed
  · exact around_concat h.order (by simp) fun ⟨e, he, hmark⟩ => absurd (hmark ▸ he) hdown

/-- The first down notification, and the call of `closeCallback_` behind it. -/
theorem OnceEach.close {tr : List ConnEvent} (h : OnceEach tr) (hdown : notifyDown ∉ tr)
    (hclosed : notifyClosed ∉ tr) {es : List ConnEvent} (hes : es = [] ∨ es = [notifyClosed]) :
    OnceEach (tr ++ notifyDown :: es) := by
  have hup : notifyUp ∈ tr := by
    rw [← List.count_pos_iff, h.up]
    exact Nat.one_pos
  have hlast : Around (· = notifyDown) (notifyUp ∈ ·) (· ≠ .messageCallback)
      (tr ++ [notifyDown]) :=
    around_concat h.order (fun _ => hup) (by simp)
  rw [← List.singleton_append, ← List.append_assoc]
  have hfirst : OnceEach (tr ++ [notifyDown]) := by
    refine ⟨?_, ?_, ?_, hlast⟩
    · rw [count_append_silent (by simp)]
      exact h.up
    · simp [List.count_append, List.count_eq_zero_of_not_mem hdown]
    · rw [count_append_silent (by simp)]
      exact h.closed
  rcases hes with rfl | rfl
  · rwa [List.append_nil]
  · refine ⟨?_, ?_, ?_, ?_⟩
    · rw [count_append_silent (by simp)]
      exact hfirst.up
    · rw [count_append_silent (by simp)]
      exact hfirst.down
    · simp [List.count_append, List.count_eq_zero_of_not_mem hclosed]
    · exact around_concat hlast (by simp) (by simp)

end ConnEvent

namespace Dispatch

open Lts Trace
open TcpConnection (Effect Steady)
open ConnEvent (OnceEach)

/-- The connection is open, reads and is registered. -/
structure Up (s : Dispatch) : Prop where
  down : ConnEvent.notifyDown ∉ s.trace
  closed : ConnEvent.notifyClosed ∉ s.trace
  state : s.conn.state ≠ .kDisconnected
  reading : s.conn.channel.reading = true
  index : s.reg.index = .kAdded

/-- The connection is closed: no event is reported any more. -/
structure Ended (s : Dispatch) : Prop where
  state : s.conn.state = .kDisconnected
  interest : s.reg.interest = none
  handlers : .closeCallback ∉ s.handlers
  destroying : s.destroying = false

structure Once (s : Dispatch) : Prop where
  mature : s.Mature
  once : OnceEach s.trace
  tail : .closeCallback ∉ s.handlers.tail
  destroying : s.destroying = true → .closeCallback ∉ s.handlers
  phase : s.Up ∨ s.Ended

theorem Up.same {s t : Dispatch} (hs : s.Up) (hconn : t.conn = s.conn) (hreg : t.reg = s.reg)
    (htrace : t.trace = s.trace) : t.Up :=
  ⟨htrace ▸ hs.down, htrace ▸ hs.closed, hconn ▸ hs.state, hconn ▸ hs.reading, hreg ▸ hs.index⟩

/-- A close is reported first, so it is never among the handlers left over. -/
theorem closeCallback_notMem_tail (revents : Revents) :
    .closeCallback ∉ revents.handlers.tail := by
  rcases revents with ⟨i, p, o, e, h⟩
  revert i p o e h
  decide

theorem Once.steady {s : Dispatch} (hs : s.Once) {r : TcpConnection × List Effect}
    (hr : Steady s.conn r) : (s.perform r).Once := by
  obtain ⟨reg, hreg, -, hperform⟩ := perform_eq hs.mature.reg r
  have hmature := hs.mature.steady hr
  have hsilent := ConnEvent.silent_of_plain hr.plain
  rw [hperform] at hmature ⊢
  refine ⟨hmature, hs.once.silent hsilent, hs.tail, hs.destroying, ?_⟩
  rcases hs.phase with hup | hended
  · obtain ⟨reg', hreg', hindex⟩ := register_of_reading hs.mature.reg hup.index hr.plain
      fun ch hch => (hr.updates ch hch).trans hup.reading
    rw [hreg] at hreg'
    cases hreg'
    refine .inl ⟨?_, ?_, hr.state.trans_ne hup.state, hr.reading.trans hup.reading, hindex⟩
    · exact List.not_mem_append hup.down fun h => (hsilent _ h).2.1 rfl
    · exact List.not_mem_append hup.closed fun h => (hsilent _ h).2.2.1 rfl
  · obtain ⟨-, hquiet⟩ := hr.closed hended.state (hs.mature.closed hended.state).1
    rw [register_of_notMem hquiet fun h => hr.plain _ h] at hreg
    cases hreg
    exact .inr ⟨hr.state.trans hended.state, hended.interest, hended.handlers, hended.destroying⟩

/-- The first close. -/
theorem Once.close {s : Dispatch} (hs : s.Once) (hup : s.Up) (hhandlers : .closeCallback ∉ s.handlers)
    (hdestroying : s.destroying = false) {r : TcpConnection × List Effect} {es : List Effect}
    (hstate : r.1.state = .kDisconnected) (hnone : r.1.channel.isNoneEvent = true)
    (hr : r.2 = .updateChannel r.1.channel :: .connectionCallback false :: es)
    (hes : es = [] ∨ es = [.closeCallback]) : (s.perform r).Once := by
  obtain ⟨reg, hreg, -, hperform⟩ := perform_eq hs.mature.reg r
  have hmature : (s.perform r).Mature :=
    hs.mature.perform (by simp [hstate]) fun _ => ⟨hnone, .inr (by simp [hr])⟩
  have hinterest : reg.interest = none := by
    rw [hr, register, Registration.updateChannel_of_eq hs.mature.reg hup.index, if_pos hnone,
      Option.bind_some, register_of_notMem] at hreg
    · cases hreg
      rfl
    · rcases hes with rfl | rfl <;> simp
    · rcases hes with rfl | rfl <;> simp
  have htrace : s.trace ++ r.2.map .effect =
      (s.trace ++ [.effect (.updateChannel r.1.channel)]) ++
        ConnEvent.notifyDown :: es.map .effect := by
    simp [hr]
  rw [hperform] at hmature ⊢
  refine ⟨hmature, ?_, hs.tail, fun h => absurd h (by simp [hdestroying]), ?_⟩
  · show OnceEach (s.trace ++ r.2.map .effect)
    rw [htrace]
    have hupdated : OnceEach (s.trace ++ [.effect (.updateChannel r.1.channel)]) :=
      hs.once.silent (by simp [ConnEvent.Silent])
    refine hupdated.close ?_ ?_ ?_
    · simpa using hup.down
    · simpa using hup.closed
    · rcases hes with rfl | rfl
      · exact .inl rfl
      · exact .inr rfl
  · exact .inr ⟨hstate, hinterest, hhandlers, hdestroying⟩

theorem Once.finishDestroyed {s : Dispatch} (hs : s.Once) : s.finishDestroyed.Once := by
  have hmature := hs.mature.finishDestroyed
  unfold Dispatch.finishDestroyed TcpConnection.removeChannel at hmature ⊢
  split_ifs at hmature ⊢ with hnone
  · rcases hs.phase with hup | hended
    · simp [Channel.isNoneEvent, hup.reading] at hnone
    · have hregister : register s.reg [.removeChannel] =
          some { s.reg with index := .kNew, inChannels := false, interest := none } := by
        rw [register, register, hs.mature.reg.removeChannel]
      simp only [Dispatch.perform, hregister] at hmature ⊢
      refine ⟨hmature, hs.once.silent (by simp [ConnEvent.Silent]), hs.tail, hs.destroying, ?_⟩
      exact .inr ⟨hended.state, rfl, hended.handlers, hended.destroying⟩
  · exact ⟨hmature, hs.once, hs.tail, hs.destroying,
      hs.phase.imp (fun h => h.same rfl rfl rfl)
        fun h => ⟨h.state, h.interest, h.handlers, h.destroying⟩⟩

theorem Once.connectDestroyed {s : Dispatch} (hs : s.Once)
    (hhandlers : .closeCallback ∉ s.handlers) : s.connectDestroyed.Once := by
  have hmature := hs.mature.connectDestroyed
  unfold Dispatch.connectDestroyed at hmature ⊢
  split_ifs at hmature ⊢ with hstate
  · refine ⟨hmature, hs.once, hs.tail, fun _ => hhandlers, .inl ?_⟩
    rcases hs.phase with hup | hended
    · exact hup.same rfl rfl rfl
    · simp [hended.state] at hstate
  · exact hs.finishDestroyed

theorem Once.handleClose {s : Dispatch} (hs : s.Once) (hup : s.Up)
    (hhandlers : .closeCallback ∉ s.handlers) (hdestroying : s.destroying = false) :
    (s.perform s.conn.handleClose).Once :=
  hs.close hup hhandlers hdestroying rfl rfl rfl (.inr rfl)

/-- Another handler has been taken from the list. -/
theorem Once.pop {s : Dispatch} (hs : s.Once) {handler : Handler} {rest : List Handler}
    (h : s.handlers = handler :: rest) :
    ({ s with handlers := rest } : Dispatch).Once ∧ .closeCallback ∉ rest := by
  have hrest : .closeCallback ∉ rest := by
    have htail := hs.tail
    rwa [h, List.tail_cons] at htail
  refine ⟨⟨hs.mature.same hs.mature.tasks rfl rfl rfl, hs.once,
    fun hmem => hrest (List.mem_of_mem_tail hmem), fun _ => hrest, ?_⟩, hrest⟩
  exact hs.phase.imp (fun h => h.same rfl rfl rfl)
    fun h => ⟨h.state, h.interest, hrest, h.destroying⟩

/-- A step that changes nothing the invariant is about, save the queue. -/
theorem Once.same {s t : Dispatch} (hs : s.Once) (htasks : .connectEstablished ∉ t.tasks)
    (hconn : t.conn = s.conn) (hreg : t.reg = s.reg) (htrace : t.trace = s.trace)
    (hhandlers : t.handlers = s.handlers) (hdestroying : t.destroying = s.destroying) : t.Once := by
  refine ⟨hs.mature.same htasks hconn hreg htrace, htrace ▸ hs.once, hhandlers ▸ hs.tail, ?_, ?_⟩
  · rw [hdestroying, hhandlers]
    exact hs.destroying
  · refine hs.phase.imp (fun h => ?_) fun h => ?_
    · exact h.same hconn hreg htrace
    · exact ⟨hconn ▸ h.state, hreg ▸ h.interest, hhandlers ▸ h.handlers, hdestroying ▸ h.destroying⟩

/-- Nothing that belongs to an open connection happens to a closed one: the descriptor is not read
(`::readv` failing apart), the store of `shutdown()` is not late.  The server does not end in the
middle of a report that has still to be handled as a close. -/
def Orderly (s : Dispatch) : Label → Prop
  | .handleRead n => 0 ≤ n → s.conn.state ≠ .kDisconnected
  | .shutdownStore _ => s.conn.state ≠ .kDisconnected
  | .destroyServer inLoop => inLoop = true → .closeCallback ∉ s.handlers
  | _ => True

theorem Once.runTask {s t : Dispatch} (hs : s.Once) {task : LoopTask} {w : WriteResult}
    (hhandlers : s.handlers = []) (htask : task ≠ .connectEstablished)
    (h : s.runTask task w = some t) : t.Once := by
  rcases runTask_cases h with ⟨hnew, -⟩ | ⟨r, hr, rfl⟩ | rfl | rfl
  · exact absurd hnew htask
  · exact hs.steady hr
  · exact hs
  · exact hs.connectDestroyed (by simp [hhandlers])

theorem once_step {s t : Dispatch} {l : Label} (hs : s.Once) (hl : Orderly s l)
    (h : step s l = some t) : t.Once := by
  cases (stepTo_of_step h).2 with
  | poll revents hfree hdone hreg =>
    -- a closed connection is not polled
    have hup : s.Up := hs.phase.resolve_right fun hended => by simp [hended.interest] at hreg
    exact ⟨hs.mature.same hs.mature.tasks rfl rfl rfl, hs.once, closeCallback_notMem_tail revents,
      fun hd => absurd hd (by simp [hfree.2]), .inl (hup.same rfl rfl rfl)⟩
  | handleClose rest hfree hhandlers =>
    have hup : s.Up := hs.phase.resolve_right fun hended =>
      hended.handlers (hhandlers ▸ List.mem_cons_self)
    obtain ⟨hpop, hrest⟩ := hs.pop hhandlers
    exact hpop.handleClose (hup.same rfl rfl rfl) hrest hfree.2
  | handleError rest _ hhandlers => exact (hs.pop hhandlers).1
  | handleRead n rest hfree hhandlers =>
    obtain ⟨hpop, hrest⟩ := hs.pop hhandlers
    by_cases hn : 0 ≤ n
    · have hup : s.Up := hs.phase.resolve_right fun hended => hl hn hended.state
      unfold Dispatch.handleRead
      split_ifs
      · refine ⟨⟨hs.mature.reg, hs.mature.tasks, hs.mature.state, fun h => absurd h hup.state⟩,
          hs.once.message hup.down, hpop.tail, hpop.destroying, .inl ⟨?_, ?_, hup.state, hup.reading,
          hup.index⟩⟩
        · simpa using hup.down
        · simpa using hup.closed
      · exact hpop.handleClose (hup.same rfl rfl rfl) hrest hfree.2
      · exact hpop
    · rw [Dispatch.handleRead, if_neg (fun h => hn h.le), if_neg fun h => hn h.ge]
      exact hpop
  | handleWrite heap w rest _ hhandlers =>
    exact (hs.pop hhandlers).1.steady (TcpConnection.steady_handleWrite s.conn heap w)
  | runFunctor w task rest _ _ hdone htasks hrun =>
    have hnew := hs.mature.tasks
    rw [htasks, List.mem_cons, not_or] at hnew
    have hrest : ({ s with tasks := rest } : Dispatch).Once :=
      hs.same hnew.2 rfl rfl rfl rfl rfl
    exact hrest.runTask hdone (Ne.symm hnew.1) hrun
  | destroyStore hdestroying =>
    have hup : s.Up := hs.phase.resolve_right fun hended => by
      simp [hended.destroying] at hdestroying
    have hhandlers := hs.destroying hdestroying
    have hstored : ({ s with destroying := false } : Dispatch).Once :=
      ⟨hs.mature.same hs.mature.tasks rfl rfl rfl, hs.once, hs.tail, fun _ => hhandlers,
        .inl (hup.same rfl rfl rfl)⟩
    have hclosed := hstored.close (r := s.conn.destroyConnected)
      (hup.same rfl rfl rfl) hhandlers rfl rfl rfl rfl (.inl rfl)
    exact hclosed.finishDestroyed
  | sendTest | shutdownTest | serverGone => exact hs.same hs.mature.tasks rfl rfl rfl rfl rfl
  | sendRefused | shutdownRefused => exact hs
  | sendRun m w =>
    have hsent := hs.steady (TcpConnection.steady_sendInLoop s.conn m w)
    exact hsent.same hsent.mature.tasks rfl rfl rfl rfl rfl
  | shutdownRun =>
    have hshut := hs.steady (TcpConnection.steady_shutdownInLoop s.conn)
    exact hshut.same hshut.mature.tasks rfl rfl rfl rfl rfl
  | shutdownStore th =>
    have hup : s.Up := hs.phase.resolve_right fun hended => hl hended.state
    exact ⟨⟨hs.mature.reg, hs.mature.tasks, by simp [setCall], by simp [setCall]⟩, hs.once, hs.tail,
      hs.destroying, .inl ⟨hup.down, hup.closed, by simp [setCall], hup.reading, hup.index⟩⟩
  | sendPush | shutdownPush | removeConnectionInLoop | serverPush =>
    exact hs.same (hs.mature.push (by simp)) rfl rfl rfl rfl rfl
  | serverRun =>
    have hgone : ({ s with serverAlive := false, inConnections := false } : Dispatch).Once :=
      hs.same hs.mature.tasks rfl rfl rfl rfl rfl
    exact hgone.connectDestroyed (hl rfl)

/-- The connection just after `connectEstablished`. -/
theorem once_established (writeComplete highWater : Bool) (mark : ℕ) {w : WriteResult}
    {t : Dispatch} (h : step (accepted writeComplete highWater mark) (.runFunctor w) = some t) :
    t.Once := by
  have hmature : t.Mature := by
    rcases sound_step _ _ _ (sound_accepted writeComplete highWater mark) h with hyoung | hmature
    · cases h
      exact absurd hyoung.state (fun h => TcpConnection.StateE.noConfusion h)
    · exact hmature
  have htrace : t.trace = [.effect (.updateChannel { reading := true }), .notifyUp] := by
    cases h
    rfl
  have hhandlers : t.handlers = [] := by
    cases h
    rfl
  have hup : t.Up := by
    refine ⟨by simp [htrace], by simp [htrace], ?_, ?_, ?_⟩
    · cases h
      exact fun h => TcpConnection.StateE.noConfusion h
    · cases h
      rfl
    · cases h
      rfl
  refine ⟨hmature, ⟨?_, ?_, ?_, ?_⟩, by simp [hhandlers], by simp [hhandlers], .inl hup⟩
  · simp [htrace]
  · simp [htrace]
  · simp [htrace]
  · rw [htrace]
    have hfirst : Around (· = ConnEvent.notifyDown) (ConnEvent.notifyUp ∈ ·)
        (· ≠ .messageCallback) ([] ++ [.effect (.updateChannel { reading := true })]) :=
      around_concat around_nil (by simp) (by simp)
    exact around_concat hfirst (by simp) (by simp)

/-- **Each callback once.**  In a run from `connectEstablished` on in which nothing happens to a
closed connection, the user hears once that it is up and at most once afterwards that it is
down, the server at most once that it is closed, and no message follows the down notification. -/
theorem callbacks_once (writeComplete highWater : Bool) (mark : ℕ) {w : WriteResult}
    {s t : Dispatch} {ls : List Label}
    (hestablished : step (accepted writeComplete highWater mark) (.runFunctor w) = some s)
    (hls : Along step Orderly s ls) (h : run step s ls = some t) : OnceEach t.trace :=
  (run_preserves_along (P := Once) (fun _ _ _ hs hl h => once_step hs hl h)
    (once_established writeComplete highWater mark hestablished) hls h).once

/-- A message, a call of `shutdown()` and a close. -/
theorem callbacks_once_closed :
    ∃ s t, step (accepted false false (64 * 1024 * 1024)) (.runFunctor (.accepted 0)) = some s ∧
      run step s [.poll { EPOLLIN := true }, .handleRead 3, .shutdownTest (some 1),
        .shutdownStore (some 1), .poll { EPOLLHUP := true }, .handleClose] = some t ∧
      OnceEach t.trace := by
  refine ⟨_, _, rfl, rfl, @callbacks_once false false (64 * 1024 * 1024) (.accepted 0) _ _
    [.poll { EPOLLIN := true }, .handleRead 3, .shutdownTest (some 1), .shutdownStore (some 1),
      .poll { EPOLLHUP := true }, .handleClose] rfl ?_ rfl⟩
  refine (along_cons_of_step rfl).2 ⟨trivial, (along_cons_of_step rfl).2 ⟨?_, ?_⟩⟩
  · exact fun _ h => TcpConnection.StateE.noConfusion h
  refine (along_cons_of_step rfl).2 ⟨trivial, (along_cons_of_step rfl).2 ⟨?_, ?_⟩⟩
  · exact fun h => TcpConnection.StateE.noConfusion h
  exact (along_cons_of_step rfl).2 ⟨trivial, (along_cons_of_step rfl).2 ⟨trivial, trivial⟩⟩

/-- One report with `EPOLLHUP` and `EPOLLPRI`: the close is followed by a read of the descriptor.
At the end of the stream the connection is closed again; bytes that are still there are handed
over. -/
theorem handleRead_after_handleClose :
    ∃ s t u, run step (accepted false false (64 * 1024 * 1024)) [.runFunctor (.accepted 0),
        .poll { EPOLLHUP := true, EPOLLPRI := true }, .handleClose] = some s ∧
      step s (.handleRead 0) = some t ∧ ¬ OnceEach t.trace ∧
      t.trace.count ConnEvent.notifyDown = 2 ∧ t.trace.count ConnEvent.notifyClosed = 2 ∧
      step s (.handleRead 5) = some u ∧ ¬ OnceEach u.trace ∧
      u.trace = s.trace ++ [.messageCallback] ∧ ConnEvent.notifyDown ∈ s.trace := by
  refine ⟨_, _, _, rfl, rfl, ?_, rfl, rfl, rfl, ?_, rfl, ?_⟩
  · exact fun h => absurd h.down (by decide)
  · exact fun h => absurd ((h.order [_, _, _] .notifyDown [_, _] rfl rfl).2 .messageCallback
      (by simp)) (by simp)
  · decide

end Dispatch

end TinyNetwork
