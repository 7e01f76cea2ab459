import TinyNetwork.Net.LoopBalance
import TinyNetwork.Net.ReusedDescriptors
import TinyNetwork.Net.ServerLifecycle

/-!
# The descriptors of a server

`accept4` gives a connection a descriptor that is not open, and `Socket::~Socket`
(src/net/Socket.cpp) closes it when the connection is destroyed, so that a later connection can get
the same one.  `Descriptors` is a server with the pollers of its loops, which go by descriptors.

`connectEstablished`, `handleClose` and `connectDestroyed` call the poller of the loop of the
connection, with the effects that `TcpConnection` gives them.  Connections are only read: nobody
calls `send` or `shutdown`, so there is no write interest and no `handleWrite`.  A connection may be
destroyed as soon as neither `connections_` nor a functor has it (`Unowned`); what users keep can
delay this.

`descriptors_safe`: a descriptor is not closed before its channel has left the poller and the list
of active channels.
-/

namespace TinyNetwork

open Lts Bytes
open Lifecycle (Stage Action)
open TcpConnection (Effect)

namespace Poller

variable {ι : Type*} [DecidableEq ι] (fd : ι → ℤ)

/-- A member function of the connection with channel `c` tells the poller what happens to it;
`none` when an assertion fails. -/
def perform (c : ι) : List Effect → Poller ι → Option (Poller ι)
  | [], s => some s
  | .updateChannel ch :: es, s => (s.setEvents fd c ch).bind (perform c es)
  | .removeChannel :: es, s => (step fd s (.remove c)).bind (perform c es)
  | .write _ _ :: es, s => perform c es s
  | .shutdownWrite :: es, s => perform c es s
  | .queueInLoop _ :: es, s => perform c es s
  | .connectionCallback _ :: es, s => perform c es s
  | .closeCallback :: es, s => perform c es s

/-- `::close`: the kernel takes the descriptor out of the interest list. -/
def closed (s : Poller ι) (f : ℤ) : Poller ι :=
  { s with interest := Function.update s.interest f none }

end Poller

namespace TcpServer

/-- The member function that a functor calls. -/
def Functor.action : Functor → Option (ConnId × Action)
  | .connectEstablished c => some (c, .connectEstablished)
  | .removeConnectionInLoop c => some (c, .removeConnectionInLoop)
  | .connectDestroyed c => some (c, .connectDestroyed)
  | .other => none

/-- The connection that a step is about, and what it does there first. -/
def acting (s : TcpServer) : Label → Option (ConnId × Action)
  | .newConnection =>
    if s.getNextLoop.1 = baseLoop then some (s.conns.length, .connectEstablished) else none
  | .handleEvent c => some (c, .handleEvent)
  | .handleClose c => some (c, .handleClose)
  | .runFunctor k => (s.loops k).functors.head?.bind Functor.action
  | .loop _ _ => none
  | .poll _ _ _ => none
  | .nextChannel _ => none

/-- The connections, with the one that a step accepts. -/
def known (s : TcpServer) : Label → List Conn
  | .newConnection => s.conns ++ [{ name := s.connName, loop := s.getNextLoop.1 }]
  | _ => s.conns

/-- Neither `connections_` nor a functor has the connection. -/
def Unowned (s : TcpServer) (c : ConnId) : Prop :=
  (∀ conn ∈ s.conns[c]?, s.connections conn.name ≠ some c) ∧
    ∀ k ≤ s.numThreads, ∀ f ∈ (s.loops k).backlog, f.conn ≠ some c

instance (s : TcpServer) (c : ConnId) : Decidable (s.Unowned c) := by
  unfold Unowned
  infer_instance

end TcpServer

namespace Lifecycle

/-- What an action leaves of the connection. -/
def Action.apply (tcp : TcpConnection) : Action → TcpConnection
  | .connectEstablished => tcp.connectEstablished.1
  | .handleEvent => tcp
  | .handleClose => tcp.handleClose.1
  | .removeConnectionInLoop => tcp
  | .connectDestroyed => (tcp.connectDestroyed.map Prod.fst).getD tcp

/-- The effects of an action. -/
def Action.effects (tcp : TcpConnection) : Action → List Effect
  | .connectEstablished => tcp.connectEstablished.2
  | .handleEvent => []
  | .handleClose => tcp.handleClose.2
  | .removeConnectionInLoop => []
  | .connectDestroyed => (tcp.connectDestroyed.map Prod.snd).getD []

end Lifecycle

namespace Descriptors

inductive Label
  | server (l : TcpServer.Label)
  | close (c : ConnId)
  deriving DecidableEq

/-- The step of the server. -/
def Label.server? : Label → Option TcpServer.Label
  | .server l => some l
  | .close _ => none

end Descriptors

/-- `opened` are the connections that have not been destroyed. -/
structure Descriptors where
  server : TcpServer
  opened : List ConnId := []
  pollers : LoopId → Poller ConnId := fun _ => Poller.new

namespace Descriptors

variable (fd : ConnId → ℤ)

def new (listenAddr : InetAddress) (nameArg : Bytes) (numThreads : ℕ) : Descriptors :=
  { server := .new listenAddr nameArg numThreads }

/-- The pollers after a step of the server from `s`. -/
def inform (s : Descriptors) (l : TcpServer.Label) : Option (LoopId → Poller ConnId) :=
  match s.server.acting l with
  | none => some s.pollers
  | some (c, a) =>
    match (s.server.known l)[c]? with
    | none => some s.pollers
    | some conn =>
      ((s.pollers conn.loop).perform fd c (a.effects conn.tcp)).map
        (Function.update s.pollers conn.loop)

/-- The descriptor that `accept4` gives is not open. -/
def Fresh (s : Descriptors) (l : TcpServer.Label) : Prop :=
  l = .newConnection → ∀ c ∈ s.opened, fd c ≠ fd s.server.conns.length

instance (s : Descriptors) (l : TcpServer.Label) : Decidable (s.Fresh fd l) := by
  unfold Fresh
  infer_instance

def openedBy (s : Descriptors) : TcpServer.Label → List ConnId
  | .newConnection => s.opened ++ [s.server.conns.length]
  | _ => s.opened

/-- `fd c` is the descriptor of connection `c`. -/
def step (s : Descriptors) : Label → Option Descriptors
  | .server l =>
    if s.Fresh fd l then
      (s.server.step l).bind fun server =>
        (s.inform fd l).map fun pollers =>
          { server := server, opened := s.openedBy l, pollers := pollers }
    else none
  | .close c =>
    if c ∈ s.opened ∧ s.server.Unowned c then
      some { s with
        opened := s.opened.erase c
        pollers := fun k => (s.pollers k).closed (fd c) }
    else none

end Descriptors

/-! ### What a step does to the connections -/

namespace TcpServer

variable {s t : TcpServer} {c : ℕ} {conn : Conn} {thread k : LoopId} {f : Functor}

/-- Of the connections `conns` number `c` did `a`, and may have been removed from `connections_`. -/
def Acts (conns : List Conn) (t : TcpServer) (c : ConnId) (a : Action) : Prop :=
  ∃ conn e rest, conns[c]? = some conn ∧ e.action = a ∧
    (∀ e' ∈ rest, e'.action = .removeConnectionInLoop) ∧
    t.conns = conns.set c { conn with
      tcp := a.apply conn.tcp
      history := conn.history ++ e :: rest }

theorem acts_called (hc : s.conns[c]? = some conn) (a : Action) :
    Acts s.conns (s.called thread c conn a (a.apply conn.tcp)) c a :=
  ⟨conn, _, [], hc, rfl, by simp, rfl⟩

theorem acts_removeConnectionInLoop (h : s.removeConnectionInLoop thread c = some t) :
    Acts s.conns t c .removeConnectionInLoop := by
  simp only [removeConnectionInLoop, Option.bind_eq_bind, Option.bind_eq_some_iff] at h
  obtain ⟨conn, hc, heq⟩ := h
  cases heq
  exact acts_called hc .removeConnectionInLoop

theorem acts_execute (h : s.execute thread f = some t) :
    match f.action with
    | some (c, a) => Acts s.conns t c a
    | none => t.conns = s.conns := by
  cases f with
  | connectEstablished c =>
    simp only [execute, connectEstablished, Option.bind_eq_bind, Option.bind_eq_some_iff] at h
    obtain ⟨conn, hc, heq⟩ := h
    cases heq
    exact acts_called hc .connectEstablished
  | connectDestroyed c =>
    simp only [execute, connectDestroyed, Option.bind_eq_bind, Option.bind_eq_some_iff] at h
    obtain ⟨conn, hc, r, hr, heq⟩ := h
    cases heq
    have hacts : Acts s.conns (s.called thread c conn .connectDestroyed
        (Action.connectDestroyed.apply conn.tcp)) c .connectDestroyed := acts_called hc _
    rw [Action.apply, hr] at hacts
    exact hacts
  | removeConnectionInLoop c => exact acts_removeConnectionInLoop h
  | other =>
    cases h
    rfl

/-- `handleClose`, with `removeConnectionInLoop` behind it if the base loop runs it. -/
theorem acts_handleClose (hc : s.conns[c]? = some conn)
    (h : s.handleClose thread c conn = some t) : Acts s.conns t c .handleClose := by
  unfold TcpServer.handleClose removeConnection runInLoop at h
  split_ifs at h
  · obtain ⟨conn', e, rest, hc', he, hrest, ht⟩ := acts_removeConnectionInLoop h
    have hlt := (List.getElem?_eq_some_iff.1 hc).1
    simp only [called, List.getElem?_set_self hlt, Option.some.injEq] at hc'
    subst hc'
    let first : Lifecycle.Event :=
      { action := .handleClose
        loop := thread
        phase := (s.loops thread).phase
        listed := s.connections conn.name == some c }
    refine ⟨conn, first, e :: rest, hc, rfl, List.forall_mem_cons.2 ⟨he, hrest⟩, ?_⟩
    rw [ht]
    simp only [called, List.set_set, List.append_assoc]
    rfl
  · cases h
    exact acts_called hc .handleClose

theorem conns_accept (s : TcpServer) :
    (s.getNextLoop.2.accept s.getNextLoop.1).conns = s.known .newConnection := by
  have hname : s.getNextLoop.2.connName = s.connName := by
    unfold getNextLoop
    split_ifs <;> rfl
  show s.getNextLoop.2.conns ++ [_] = s.conns ++ [_]
  rw [(getNextLoop_keeps s).1, hname]

/-- **What a step does to the connections**: nothing beside what one of them does. -/
theorem conns_step {l : Label} (h : step s l = some t) :
    match s.acting l with
    | some (c, a) => Acts (s.known l) t c a
    | none => t.conns = s.known l := by
  cases l with
  | loop k l =>
    simp only [step] at h
    split_ifs at h
    obtain ⟨e, -, rfl⟩ := Option.map_eq_some_iff.1 h
    rfl
  | poll k w channels =>
    simp only [step] at h
    split_ifs at h
    obtain ⟨e, -, rfl⟩ := Option.map_eq_some_iff.1 h
    rfl
  | nextChannel k =>
    simp only [step] at h
    split_ifs at h
    cases h
    rfl
  | newConnection =>
    simp only [step] at h
    split_ifs at h
    simp only [newConnection, runInLoop] at h
    by_cases hbase : s.getNextLoop.1 = baseLoop
    · rw [if_pos hbase.symm] at h
      have hacts := acts_execute h
      rw [conns_accept] at hacts
      simp only [acting, hbase, if_true]
      exact hacts
    · rw [if_neg (Ne.symm hbase)] at h
      cases h
      simp only [acting, hbase, if_false]
      exact conns_accept s
  | handleEvent c =>
    simp only [step] at h
    split at h
    · rename_i conn hc
      split_ifs at h
      cases h
      exact acts_called hc .handleEvent
    · cases h
  | handleClose c =>
    simp only [step] at h
    split at h
    · rename_i conn hc
      split_ifs at h
      exact acts_handleClose hc h
    · cases h
  | runFunctor k =>
    simp only [step] at h
    split_ifs at h
    split at h
    · rename_i f rest hf
      obtain ⟨e, -, h⟩ := Option.bind_eq_some_iff.1 h
      have hacts := acts_execute h
      simp only [acting, hf, List.head?_cons, Option.bind_some]
      exact hacts
    · cases h

end TcpServer

/-! ### The stages -/

namespace Lifecycle

/-- The `TcpConnection` in a stage of its life. -/
def Stage.tcp : Stage → TcpConnection
  | .accepted => {}
  | .established => Action.connectEstablished.apply {}
  | _ => Action.handleClose.apply (Action.connectEstablished.apply {})

/-- The `index_` of its channel. -/
def Stage.index : Stage → ChannelIndex
  | .accepted => .kNew
  | .established => .kAdded
  | .closed => .kDeleted
  | .removed => .kDeleted
  | .destroyed => .kNew

variable {ioLoop : LoopId} {stage stage' : Stage} {e : Lifecycle.Event}

/-- The actions and the stages they end. -/
theorem step_cases (h : step ioLoop stage e = some stage') :
    (e.action = .connectEstablished ∧ stage = .accepted ∧ stage' = .established) ∨
      (e.action = .handleEvent ∧ stage' = stage ∧ stage ≠ .destroyed) ∨
      (e.action = .handleClose ∧ stage = .established ∧ stage' = .closed) ∨
      (e.action = .removeConnectionInLoop ∧ stage = .closed ∧ stage' = .removed) ∨
      (e.action = .connectDestroyed ∧ stage = .removed ∧ stage' = .destroyed) := by
  unfold step at h
  split at h <;> try cases h
  all_goals
    rename_i haction
    split_ifs at h
    cases h
    simp [haction]

theorem apply_stage (h : step ioLoop stage e = some stage') :
    e.action.apply stage.tcp = stage'.tcp := by
  rcases step_cases h with ⟨ha, rfl, rfl⟩ | ⟨ha, rfl, -⟩ | ⟨ha, rfl, rfl⟩ | ⟨ha, rfl, rfl⟩ |
    ⟨ha, rfl, rfl⟩
  all_goals
    rw [ha]
    rfl

theorem not_destroyed_of_step (h : step ioLoop stage e = some stage') : stage ≠ .destroyed := by
  rcases step_cases h with ⟨-, rfl, -⟩ | ⟨-, -, hne⟩ | ⟨-, rfl, -⟩ | ⟨-, rfl, -⟩ | ⟨-, rfl, -⟩
  · decide
  · exact hne
  · decide
  · decide
  · decide

/-- `removeConnectionInLoop` does not touch the connection. -/
theorem stage_of_removed {es : List Lifecycle.Event}
    (hes : ∀ e ∈ es, e.action = .removeConnectionInLoop)
    (h : Lts.run (step ioLoop) stage es = some stage') :
    stage'.tcp = stage.tcp ∧ stage'.index = stage.index ∧
      (stage = .destroyed ↔ stage' = .destroyed) := by
  induction es generalizing stage with
  | nil =>
    cases h
    exact ⟨rfl, rfl, Iff.rfl⟩
  | cons e es ih =>
    obtain ⟨u, hu, hrest⟩ := run_cons_eq_some.1 h
    obtain ⟨htcp, hindex, hdestroyed⟩ := ih (fun e' he' => hes e' (List.mem_cons_of_mem e he')) hrest
    have he : e.action = .removeConnectionInLoop := hes e List.mem_cons_self
    have hstep : stage = .closed ∧ u = .removed := by
      rcases step_cases hu with ⟨ha, -⟩ | ⟨ha, -⟩ | ⟨ha, -⟩ | ⟨-, hstep⟩ | ⟨ha, -⟩
      · exact absurd (ha.symm.trans he) (by decide)
      · exact absurd (ha.symm.trans he) (by decide)
      · exact absurd (ha.symm.trans he) (by decide)
      · exact hstep
      · exact absurd (ha.symm.trans he) (by decide)
    obtain ⟨rfl, rfl⟩ := hstep
    refine ⟨htcp, hindex, iff_of_false (by decide) fun hend => ?_⟩
    exact absurd (hdestroyed.2 hend) (by decide)

end Lifecycle

namespace Poller

variable {fd : ConnId → ℤ} {s t : Poller ConnId} {c : ConnId} {stage stage' : Stage}
  {e : Lifecycle.Event}

theorem index_update (s : Poller ConnId) (op : EpollOp) (c : ConnId) :
    (s.update fd op c).index = s.index := by
  unfold update
  split <;> rfl

/-- What the poller of its loop knows of a connection in a stage. -/
structure Knows (s : Poller ConnId) (c : ConnId) (stage : Stage) : Prop where
  index : s.index c = stage.index
  events : s.events c = stage.tcp.channel

theorem knows_setEvents (hs : s.Consistent fd)
    (hentry : s.channels (fd c) = none ∨ s.channels (fd c) = some c) (events : Channel) :
    ∃ t, s.setEvents fd c events = some t ∧ t.Consistent fd ∧ Touches fd c s t ∧
      t.events c = events ∧
      t.index c = if s.index c = .kAdded ∧ events.isNoneEvent then .kDeleted else .kAdded := by
  obtain ⟨t, ht, hagrees⟩ := (hs.agrees hentry).setEvents events
  have htouches := touches_setEvents ht
  refine ⟨t, ht, hs.of_touches htouches hagrees hentry, htouches, ?_, ?_⟩
  · rw [updateChannel_events ht]
    exact Function.update_self _ _ _
  · unfold setEvents updateChannel at ht
    split at ht
    · rename_i hindex
      have hnew : s.index c = .kNew := hindex
      cases ht
      rw [index_update, if_neg (by simp [hnew])]
      exact Function.update_self _ _ _
    · rename_i hindex
      have hdeleted : s.index c = .kDeleted := hindex
      split_ifs at ht
      cases ht
      rw [index_update, if_neg (by simp [hdeleted])]
      exact Function.update_self _ _ _
    · rename_i hindex
      have hadded : s.index c = .kAdded := hindex
      have hevents : Function.update s.events c events c = events := Function.update_self _ _ _
      cases ht
      simp only [hevents, hadded, true_and]
      split_ifs
      · exact Function.update_self _ _ _
      · rw [index_update]
        exact hadded

/-- **An action takes the poller from one stage to the next**, and no assertion fails. -/
theorem knows_perform (hs : s.Consistent fd) (hknows : s.Knows c stage)
    (hentry : s.channels (fd c) = none ∨ s.channels (fd c) = some c) {ioLoop : LoopId}
    (h : Lifecycle.step ioLoop stage e = some stage') :
    ∃ t, s.perform fd c (e.action.effects stage.tcp) = some t ∧ t.Consistent fd ∧
      Touches fd c s t ∧ t.Knows c stage' := by
  have hsame : ∀ stage' : Stage, stage'.index = stage.index → stage'.tcp = stage.tcp →
      ∃ t, s.perform fd c [] = some t ∧ t.Consistent fd ∧ Touches fd c s t ∧ t.Knows c stage' :=
    fun stage' hindex htcp => ⟨s, rfl, hs,
      ⟨fun _ _ => rfl, fun _ _ => rfl, fun _ _ => rfl, fun _ _ => rfl, fun _ _ => rfl⟩,
      hknows.index.trans hindex.symm, by rw [htcp]; exact hknows.events⟩
  rcases Lifecycle.step_cases h with ⟨ha, rfl, rfl⟩ | ⟨ha, rfl, -⟩ | ⟨ha, rfl, rfl⟩ |
    ⟨ha, rfl, rfl⟩ | ⟨ha, rfl, rfl⟩
  · rw [ha]
    obtain ⟨t, ht, hconsistent, htouches, hevents, hindex⟩ :=
      knows_setEvents hs hentry ⟨true, false⟩
    refine ⟨t, ?_, hconsistent, htouches, ?_, hevents⟩
    · show (s.setEvents fd c ⟨true, false⟩).bind _ = some t
      rw [ht]
      rfl
    · rw [hindex]
      exact if_neg (by simp [Channel.isNoneEvent])
  · rw [ha]
    exact hsame _ rfl rfl
  · rw [ha]
    obtain ⟨t, ht, hconsistent, htouches, hevents, hindex⟩ :=
      knows_setEvents hs hentry ⟨false, false⟩
    refine ⟨t, ?_, hconsistent, htouches, ?_, hevents⟩
    · show (s.setEvents fd c ⟨false, false⟩).bind _ = some t
      rw [ht]
      rfl
    · rw [hindex]
      exact if_pos ⟨hknows.index, rfl⟩
  · rw [ha]
    exact hsame _ rfl rfl
  · rw [ha]
    have hidle : (s.events c).isNoneEvent = true := by
      rw [hknows.events]
      rfl
    obtain ⟨t, ht, hconsistent, -⟩ := consistent_step hs (l := .remove c) hentry hidle
    have htouches : Touches fd c s t := touches_step ht
    have hremove : t = s.removeChannel fd c := by
      rw [step, if_pos hidle] at ht
      exact (Option.some.inj ht).symm
    refine ⟨t, ?_, hconsistent, htouches, ?_, ?_⟩
    · show (step fd s (.remove c)).bind _ = some t
      rw [ht]
      rfl
    · rw [hremove]
      exact Function.update_self _ _ _
    · have hevents : (s.removeChannel fd c).events = s.events := by
        unfold removeChannel
        dsimp only
        split_ifs
        · exact update_events fd _ _ c
        · rfl
      rw [hremove, hevents, hknows.events]
      rfl

end Poller

namespace Descriptors

variable {fd : ConnId → ℤ}

/-- Connection `c` is in a stage, its poller knows it, and only in the last stage it is closed. -/
structure Staged (fd : ConnId → ℤ) (opened : List ConnId) (p : Poller ConnId) (c : ConnId)
    (conn : TcpServer.Conn) (stage : Stage) : Prop where
  history : run (Lifecycle.step conn.loop) .accepted conn.history = some stage
  tcp : conn.tcp = stage.tcp
  knows : p.Knows c stage
  destroyed : c ∉ opened → stage = .destroyed

/-- The connections, those that are open and the pollers fit together. -/
structure Tracked (fd : ConnId → ℤ) (conns : List TcpServer.Conn) (opened : List ConnId)
    (pollers : LoopId → Poller ConnId) : Prop where
  known : ∀ c ∈ opened, c < conns.length
  nodup : opened.Nodup
  distinct : ∀ c ∈ opened, ∀ d ∈ opened, fd c = fd d → c = d
  consistent : ∀ k, (pollers k).Consistent fd
  staged : ∀ c conn, conns[c]? = some conn →
    ∃ stage, Staged fd opened (pollers conn.loop) c conn stage
  elsewhere : ∀ k c, (∀ conn, conns[c]? = some conn → conn.loop ≠ k) →
    (pollers k).Knows c .accepted

variable {conns : List TcpServer.Conn} {opened : List ConnId} {pollers : LoopId → Poller ConnId}
  {c d : ConnId} {conn : TcpServer.Conn} {k : LoopId} {stage : Stage}

theorem tracked_new : Tracked fd [] [] fun _ => Poller.new where
  known c h := absurd h List.not_mem_nil
  nodup := List.nodup_nil
  distinct c h := absurd h List.not_mem_nil
  consistent _ := Poller.consistent_new
  staged c conn h := by simp at h
  elsewhere k c _ := ⟨rfl, rfl⟩

/-- A channel that a poller knows belongs to an open connection of its loop. -/
theorem Tracked.of_channels (h : Tracked fd conns opened pollers) {f : ℤ}
    (hd : (pollers k).channels f = some d) :
    ∃ conn, conns[d]? = some conn ∧ conn.loop = k ∧ d ∈ opened ∧ fd d = f := by
  have hfd := (h.consistent k).entries f d hd
  have hindex : (pollers k).index d ≠ .kNew := by
    rw [(h.consistent k).index d, hfd]
    exact hd
  by_contra hnone
  refine hindex ?_
  by_cases hconn : ∃ conn, conns[d]? = some conn ∧ conn.loop = k
  · obtain ⟨conn, hconn, hloop⟩ := hconn
    obtain ⟨stage, hstage⟩ := h.staged d conn hconn
    have hopen : d ∉ opened := fun hmem => hnone ⟨conn, hconn, hloop, hmem, hfd⟩
    have hknows := hstage.knows.index
    rw [hloop, hstage.destroyed hopen] at hknows
    exact hknows
  · exact (h.elsewhere k d fun conn hd hk => hconn ⟨conn, hd, hk⟩).index

/-- An open connection has the entry of its descriptor for itself. -/
theorem Tracked.undisputed (h : Tracked fd conns opened pollers) (hc : c ∈ opened) (k : LoopId) :
    (pollers k).channels (fd c) = none ∨ (pollers k).channels (fd c) = some c := by
  cases hd : (pollers k).channels (fd c) with
  | none => exact .inl rfl
  | some d =>
    obtain ⟨-, -, -, hopen, hfd⟩ := h.of_channels hd
    exact .inr (congrArg some (h.distinct d hopen c hc hfd))

/-- A connection is accepted with a descriptor that is not open. -/
theorem Tracked.accept (h : Tracked fd conns opened pollers) (name : Bytes) (ioLoop : LoopId)
    (hfresh : ∀ c ∈ opened, fd c ≠ fd conns.length) :
    Tracked fd (conns ++ [{ name := name, loop := ioLoop }]) (opened ++ [conns.length])
      pollers := by
  have hnew : conns.length ∉ opened := fun hmem => Nat.lt_irrefl _ (h.known _ hmem)
  refine ⟨fun c hc => ?_, ?_, fun c hc d hd hfd => ?_, h.consistent, fun c conn hc => ?_,
    fun k c hc => h.elsewhere k c fun conn hconn => hc conn ?_⟩
  · rw [List.length_append, List.length_singleton]
    rcases List.mem_append.1 hc with hold | hold
    · exact Nat.lt_succ_of_lt (h.known c hold)
    · rw [List.mem_singleton.1 hold]
      exact Nat.lt_succ_self _
  · refine List.nodup_append.2 ⟨h.nodup, List.nodup_singleton _, fun c hc d hd => ?_⟩
    rw [List.mem_singleton.1 hd]
    rintro rfl
    exact hnew hc
  · rcases List.mem_append.1 hc with hold | hold
    · rcases List.mem_append.1 hd with hold' | hold'
      · exact h.distinct c hold d hold' hfd
      · rw [List.mem_singleton.1 hold'] at hfd
        exact absurd hfd (hfresh c hold)
    · rw [List.mem_singleton.1 hold] at hfd ⊢
      rcases List.mem_append.1 hd with hold' | hold'
      · exact absurd hfd.symm (hfresh d hold')
      · exact (List.mem_singleton.1 hold').symm
  · rcases TcpServer.getElem?_concat_cases hc with hold | ⟨rfl, rfl⟩
    · obtain ⟨stage, hstage⟩ := h.staged c conn hold
      exact ⟨stage, { hstage with
        destroyed := fun hmem => hstage.destroyed fun hold => hmem (List.mem_append_left _ hold) }⟩
    · have hunknown := h.elsewhere ioLoop conns.length fun conn hconn => by simp at hconn
      refine ⟨.accepted, rfl, rfl, hunknown, fun hmem => ?_⟩
      exact absurd (List.mem_append_right _ (List.mem_singleton_self _)) hmem
  · rw [List.getElem?_append_left (List.getElem?_eq_some_iff.1 hconn).1]
    exact hconn

theorem getElem?_set_cases {α : Type} {l : List α} {a x : α} {c d : ℕ}
    (h : (l.set c a)[d]? = some x) : (d = c ∧ x = a) ∨ (d ≠ c ∧ l[d]? = some x) := by
  by_cases hd : d = c
  · subst hd
    obtain ⟨hlt, heq⟩ := List.getElem?_eq_some_iff.1 h
    rw [List.getElem_set_self] at heq
    exact .inl ⟨rfl, heq.symm⟩
  · rw [List.getElem?_set_ne (Ne.symm hd)] at h
    exact .inr ⟨hd, h⟩

/-- **A connection acts**: its poller is told and does not fail, and all fits again. -/
theorem Tracked.act (h : Tracked fd conns opened pollers) (hc : conns[c]? = some conn)
    {e : Lifecycle.Event} {rest : List Lifecycle.Event}
    (hrest : ∀ e' ∈ rest, e'.action = .removeConnectionInLoop)
    (hlife : run (Lifecycle.step conn.loop) .accepted (conn.history ++ e :: rest) = some stage) :
    ∃ p, (pollers conn.loop).perform fd c (e.action.effects conn.tcp) = some p ∧
      Tracked fd (conns.set c { conn with
        tcp := e.action.apply conn.tcp
        history := conn.history ++ e :: rest }) opened (Function.update pollers conn.loop p) := by
  obtain ⟨stage₀, hstage⟩ := h.staged c conn hc
  obtain ⟨u, stage₁, hu, hstep, hremoved⟩ := run_append_cons_eq_some.1 hlife
  have heq : u = stage₀ := Option.some.inj (hu.symm.trans hstage.history)
  subst heq
  obtain ⟨htcp, hindex, hdestroyed⟩ := Lifecycle.stage_of_removed hrest hremoved
  have hopen : c ∈ opened := by
    by_contra hnot
    exact Lifecycle.not_destroyed_of_step hstep (hstage.destroyed hnot)
  obtain ⟨p, hp, hconsistent, htouches, hknows⟩ :=
    Poller.knows_perform (h.consistent conn.loop) hstage.knows (h.undisputed hopen conn.loop) hstep
  rw [← hstage.tcp] at hp
  have hlength : ∀ x : TcpServer.Conn, (conns.set c x).length = conns.length :=
    fun x => List.length_set
  refine ⟨p, hp, fun d hd => (hlength _).symm ▸ h.known d hd, h.nodup, h.distinct, fun k => ?_,
    fun d conn' hd => ?_, fun k d hd => ?_⟩
  · by_cases hk : k = conn.loop
    · rw [hk, Function.update_self]
      exact hconsistent
    · rw [Function.update_of_ne hk]
      exact h.consistent k
  · rcases getElem?_set_cases hd with ⟨rfl, rfl⟩ | ⟨hne, hd⟩
    · refine ⟨stage, hlife, ?_, ?_, fun hnot => absurd hopen hnot⟩
      · show e.action.apply conn.tcp = stage.tcp
        rw [htcp, hstage.tcp]
        exact Lifecycle.apply_stage hstep
      · rw [Function.update_self]
        exact ⟨hknows.index.trans hindex.symm, by rw [htcp]; exact hknows.events⟩
    · obtain ⟨stage', hstage'⟩ := h.staged d conn' hd
      refine ⟨stage', { hstage' with knows := ?_ }⟩
      by_cases hk : conn'.loop = conn.loop
      · rw [hk, Function.update_self]
        have hold := hstage'.knows
        rw [hk] at hold
        exact ⟨(htouches.index d hne).trans hold.index, (htouches.events d hne).trans hold.events⟩
      · rw [Function.update_of_ne hk]
        exact hstage'.knows
  · have hother : ∀ conn', conns[d]? = some conn' → conn'.loop ≠ k := by
      intro conn' hd'
      by_cases hdc : d = c
      · subst hdc
        rw [hc] at hd'
        cases hd'
        have hself := hd _ (List.getElem?_set_self (List.getElem?_eq_some_iff.1 hc).1)
        exact hself
      · exact hd conn' ((List.getElem?_set_ne (Ne.symm hdc)).trans hd')
    have hold := h.elsewhere k d hother
    by_cases hk : k = conn.loop
    · have hdc : d ≠ c := by
        rintro rfl
        exact hother conn hc hk.symm
      rw [hk] at hold ⊢
      rw [Function.update_self]
      exact ⟨(htouches.index d hdc).trans hold.index, (htouches.events d hdc).trans hold.events⟩
    · rw [Function.update_of_ne hk]
      exact hold

/-- At the end of its life no interest list has the descriptor of a connection. -/
theorem Tracked.interest_destroyed (h : Tracked fd conns opened pollers) (hc : c ∈ opened)
    (hconn : conns[c]? = some conn) (hstage : Staged fd opened (pollers conn.loop) c conn .destroyed)
    (k : LoopId) : (pollers k).interest (fd c) = none := by
  by_contra hsome
  obtain ⟨events, hevents⟩ := Option.ne_none_iff_exists'.1 hsome
  obtain ⟨d, hd, hadded, -⟩ := (h.consistent k).interest _ _ hevents
  obtain ⟨conn', hconn', hloop, hopen, hfd⟩ := h.of_channels hd
  have hdc := h.distinct d hopen c hc hfd
  subst hdc
  rw [hconn] at hconn'
  cases hconn'
  have hindex := hstage.knows.index
  rw [hloop, hadded] at hindex
  cases hindex

theorem closed_of_interest {p : Poller ConnId} {f : ℤ} (h : p.interest f = none) :
    p.closed f = p := by
  unfold Poller.closed
  rw [← h, Function.update_eq_self]

/-- A connection that was destroyed is closed. -/
theorem Tracked.close (h : Tracked fd conns opened pollers) (hconn : conns[c]? = some conn)
    (hstage : Staged fd opened (pollers conn.loop) c conn .destroyed) :
    Tracked fd conns (opened.erase c) pollers where
  known d hd := h.known d (List.mem_of_mem_erase hd)
  nodup := h.nodup.erase c
  distinct d hd d' hd' := h.distinct d (List.mem_of_mem_erase hd) d' (List.mem_of_mem_erase hd')
  consistent := h.consistent
  staged d conn' hd := by
    obtain ⟨stage, hold⟩ := h.staged d conn' hd
    refine ⟨stage, { hold with destroyed := fun hnot => ?_ }⟩
    by_cases hdc : d = c
    · subst hdc
      rw [hconn] at hd
      cases hd
      exact Option.some.inj (hold.history.symm.trans hstage.history)
    · exact hold.destroyed fun hmem => hnot ((List.mem_erase_of_ne hdc).2 hmem)
  elsewhere := h.elsewhere

/-! ### Every run -/

/-- Fewer than `2 ^ 31` connections are accepted, and each is closed at most once. -/
def Bounded (ls : List Label) : Prop :=
  ls.count (.server .newConnection) < 2 ^ 31 ∧ ∀ c, ls.count (.server (.handleClose c)) ≤ 1

theorem Bounded.of_append {ls ms : List Label} (h : Bounded (ls ++ ms)) : Bounded ls := by
  have hle : ∀ l, ls.count l ≤ (ls ++ ms).count l := fun l => by
    rw [List.count_append]
    exact Nat.le_add_right _ _
  exact ⟨(hle _).trans_lt h.1, fun c => (hle _).trans (h.2 c)⟩

theorem count_server (ls : List Label) (l : TcpServer.Label) :
    (ls.filterMap Label.server?).count l = ls.count (.server l) := by
  induction ls with
  | nil => rfl
  | cons m ls ih =>
    cases m with
    | server m =>
      rw [List.filterMap_cons_some (by rfl), List.count_cons, List.count_cons, ih]
      simp
    | close c =>
      rw [List.filterMap_cons_none (by rfl), List.count_cons, ih]
      simp

structure Inv (fd : ConnId → ℤ) (n : ℕ) (ls : List Label) (s : Descriptors) : Prop where
  server : TcpServer.Inv (ls.filterMap Label.server?) s.server none
  spread : TcpServer.Spread n s.server
  tracked : Tracked fd s.server.conns s.opened s.pollers

variable {s t : Descriptors} {ls : List Label} {n : ℕ}

theorem tracked_known (hs : Tracked fd s.server.conns s.opened s.pollers) {l : TcpServer.Label}
    (hfresh : s.Fresh fd l) : Tracked fd (s.server.known l) (s.openedBy l) s.pollers := by
  cases l with
  | newConnection => exact hs.accept _ _ (hfresh rfl)
  | loop k l => exact hs
  | poll k w channels => exact hs
  | handleEvent c => exact hs
  | handleClose c => exact hs
  | nextChannel k => exact hs
  | runFunctor k => exact hs

/-- A step of the server goes through: no assertion of a poller fails. -/
theorem Inv.serverStep (hs : Inv fd n ls s) {l : TcpServer.Label} {server : TcpServer}
    (hbound : Bounded (ls ++ [.server l])) (hfresh : s.Fresh fd l)
    (h : s.server.step l = some server) :
    ∃ pollers, s.inform fd l = some pollers ∧ Inv fd n (ls ++ [.server l])
      { server := server, opened := s.openedBy l, pollers := pollers } := by
  have hlabels : (ls ++ [Label.server l]).filterMap Label.server? =
      ls.filterMap Label.server? ++ [l] := List.filterMap_append
  have hserver : TcpServer.Inv (ls.filterMap Label.server? ++ [l]) server none := by
    refine TcpServer.inv_step hs.server h ?_ fun c => ?_
    · rw [← hlabels, count_server]
      exact hbound.1
    · rw [← hlabels, count_server]
      exact hbound.2 c
  have hknown := tracked_known hs.tracked hfresh
  have hspread := TcpServer.spread_step hs.spread h
  have hconns := TcpServer.conns_step h
  unfold inform
  split at hconns
  · rename_i c a hacting
    obtain ⟨conn, e, rest, hc, rfl, hrest, hafter⟩ := hconns
    have hlt := (List.getElem?_eq_some_iff.1 hc).1
    obtain ⟨stage, hstage⟩ := hserver.conns c _ (hafter ▸ List.getElem?_set_self hlt)
    obtain ⟨p, hp, htracked⟩ := hknown.act hc hrest hstage.history
    refine ⟨_, ?_, hlabels ▸ hserver, hspread, hafter ▸ htracked⟩
    rw [hacting]
    dsimp only
    rw [hc]
    dsimp only
    rw [hp]
    rfl
  · rename_i hacting
    refine ⟨s.pollers, ?_, hlabels ▸ hserver, hspread, hconns ▸ hknown⟩
    rw [hacting]

/-- A connection that neither `connections_` nor a functor has is at the end of its life. -/
theorem Inv.destroyed (hs : Inv fd n ls s) {c : ConnId} (hc : c ∈ s.opened)
    (hunowned : s.server.Unowned c) : ∃ conn, s.server.conns[c]? = some conn ∧
      Staged fd s.opened (s.pollers conn.loop) c conn .destroyed := by
  have hlt := hs.tracked.known c hc
  have hconn : s.server.conns[c]? = some s.server.conns[c] := List.getElem?_eq_getElem hlt
  obtain ⟨stage, hstage⟩ := hs.tracked.staged c _ hconn
  obtain ⟨stage', hlife⟩ := hs.server.conns c _ hconn
  have heq : stage' = stage := Option.some.inj (hlife.history.symm.trans hstage.history)
  subst heq
  refine ⟨_, hconn, ?_⟩
  have hlisted : ¬ stage'.listed := fun hlisted =>
    hunowned.1 _ hconn (hlife.listed.2 hlisted)
  cases stage' with
  | accepted => exact absurd trivial hlisted
  | established => exact absurd trivial hlisted
  | closed => exact absurd trivial hlisted
  | destroyed => exact hstage
  | removed =>
    -- `connectDestroyed` is still to be called
    have hloop : s.server.conns[c].loop ≤ s.server.numThreads := by
      have hmem : s.server.conns[c].loop ∈ s.server.assigned :=
        List.mem_map_of_mem (List.getElem_mem hlt)
      rw [hs.spread.assigned] at hmem
      obtain ⟨i, -, hi⟩ := List.mem_map.1 hmem
      rw [← hi, hs.spread.numThreads, TcpServer.loopOf]
      split_ifs with hn
      · exact Nat.zero_le _
      · exact Nat.succ_le_of_lt (Nat.mod_lt _ (Nat.pos_of_ne_zero hn))
    have hflight := hlife.inFlight s.server.conns[c].loop (.connectDestroyed c) rfl
    rw [TcpServer.flight, if_neg (by simp), Nat.add_zero] at hflight
    replace hflight := hflight.trans (if_pos rfl)
    have hmem : TcpServer.Functor.connectDestroyed c ∈
        (s.server.loops s.server.conns[c].loop).backlog :=
      List.count_pos_iff.1 (by rw [hflight]; exact Nat.one_pos)
    exact absurd rfl (hunowned.2 _ hloop _ hmem)

theorem Inv.close (hs : Inv fd n ls s) {c : ConnId} (h : step fd s (.close c) = some t) :
    t.pollers = s.pollers ∧ Inv fd n (ls ++ [.close c]) t := by
  simp only [step] at h
  split_ifs at h with hc
  cases h
  obtain ⟨conn, hconn, hstage⟩ := hs.destroyed hc.1 hc.2
  have hpollers : (fun k => (s.pollers k).closed (fd c)) = s.pollers := by
    funext k
    exact closed_of_interest (hs.tracked.interest_destroyed hc.1 hconn hstage k)
  have hlabels : (ls ++ [Label.close c]).filterMap Label.server? = ls.filterMap Label.server? := by
    rw [List.filterMap_append]
    exact List.append_nil _
  refine ⟨hpollers, hlabels ▸ hs.server, hs.spread, ?_⟩
  rw [hpollers]
  exact hs.tracked.close hconn hstage

theorem inv_step (hs : Inv fd n ls s) {l : Label} (hbound : Bounded (ls ++ [l]))
    (h : step fd s l = some t) : Inv fd n (ls ++ [l]) t := by
  cases l with
  | server l =>
    simp only [step] at h
    split_ifs at h with hfresh
    obtain ⟨server, hserver, hpollers⟩ := Option.bind_eq_some_iff.1 h
    obtain ⟨pollers, hinform, hinv⟩ := hs.serverStep hbound hfresh hserver
    rw [hinform] at hpollers
    cases hpollers
    exact hinv
  | close c => exact (hs.close h).2

theorem inv_run {listenAddr : InetAddress} {nameArg : Bytes}
    (h : run (step fd) (new listenAddr nameArg n) ls = some s) (hls : Bounded ls) :
    Inv fd n ls s := by
  refine run_induction (P := fun ms u => Bounded ms → Inv fd n ms u) (fun _ => ?_) ?_ h hls
  · exact ⟨TcpServer.inv_new listenAddr nameArg n,
      ⟨rfl, rfl, fun _ => (Nat.zero_mod n).symm⟩, tracked_new⟩
  · intro ms u l v hu hstep hbound
    exact inv_step (hu hbound.of_append) hbound hstep

/-- The poller of loop `k` reports a connection exactly if the interest list has its channel. -/
theorem Inv.registered_iff (hs : Inv fd n ls s) (k : LoopId) (c : ConnId) :
    s.server.registered k c = true ↔ (s.pollers k).channels (fd c) = some c ∧
      ((s.pollers k).interest (fd c)).isSome = true := by
  have hconsistent := hs.tracked.consistent k
  rw [TcpServer.registered_iff]
  constructor
  · rintro ⟨conn, hconn, rfl, hevents⟩
    obtain ⟨stage, hstage⟩ := hs.tracked.staged c conn hconn
    rw [hstage.tcp] at hevents
    have hadded : stage.index = .kAdded := by
      cases stage with
      | established => rfl
      | _ => cases hevents
    have hindex := hstage.knows.index.trans hadded
    exact ⟨(hconsistent.index c).1 (by rw [hindex]; decide), hconsistent.added c hindex⟩
  · rintro ⟨hchannels, hinterest⟩
    obtain ⟨conn, hconn, hloop, -, -⟩ := hs.tracked.of_channels hchannels
    obtain ⟨events, hevents⟩ := Option.isSome_iff_exists.1 hinterest
    obtain ⟨d, hd, hadded, -⟩ := hconsistent.interest _ _ hevents
    have hdc : d = c := Option.some.inj (hd.symm.trans hchannels)
    obtain ⟨stage, hstage⟩ := hs.tracked.staged c conn hconn
    have hindex := hstage.knows.index
    rw [hloop, ← hdc, hadded] at hindex
    refine ⟨conn, hconn, hloop, ?_⟩
    rw [hstage.tcp]
    cases stage with
    | established => rfl
    | _ => cases hindex

/-- **The descriptors are safe.**  In every run of a server that only reads, no two open connections
have the same descriptor, though descriptors are used again; the bookkeeping of every poller is
consistent, and what a poller knows or a loop is about to handle belongs to an open connection.  A
poller reports the connections that the interest list has; when a connection is closed, the kernel
finds its descriptor in no interest list; and no assertion of a poller fails. -/
theorem descriptors_safe {listenAddr : InetAddress} {nameArg : Bytes}
    (h : run (step fd) (new listenAddr nameArg n) ls = some s) (hls : Bounded ls) :
    (∀ c ∈ s.opened, ∀ d ∈ s.opened, fd c = fd d → c = d) ∧
    (∀ k, (s.pollers k).Consistent fd) ∧
    (∀ k c, (s.pollers k).channels (fd c) = some c ∨ c ∈ s.server.activeChannels k →
      c ∈ s.opened) ∧
    (∀ k c, s.server.registered k c = true ↔ (s.pollers k).channels (fd c) = some c ∧
      ((s.pollers k).interest (fd c)).isSome = true) ∧
    (∀ c t, step fd s (.close c) = some t → t.pollers = s.pollers) ∧
    ∀ l server, Bounded (ls ++ [.server l]) → s.Fresh fd l → s.server.step l = some server →
      (step fd s (.server l)).isSome = true := by
  have hs := inv_run h hls
  refine ⟨hs.tracked.distinct, hs.tracked.consistent, fun k c hc => ?_, hs.registered_iff,
    fun c t ht => (hs.close ht).1, fun l server hbound hfresh hserver => ?_⟩
  · rcases hc with hchannels | hactive
    · obtain ⟨-, -, -, hopen, -⟩ := hs.tracked.of_channels hchannels
      exact hopen
    · have hlt := hs.server.activeKnown k c hactive
      have hconn : s.server.conns[c]? = some s.server.conns[c] := List.getElem?_eq_getElem hlt
      obtain ⟨stage, hstage⟩ := hs.tracked.staged c _ hconn
      obtain ⟨stage', hlife⟩ := hs.server.conns c _ hconn
      have heq : stage' = stage := Option.some.inj (hlife.history.symm.trans hstage.history)
      by_contra hnot
      exact (hlife.active k hactive).2.2 (heq.trans (hstage.destroyed hnot))
  · obtain ⟨pollers, hinform, -⟩ := hs.serverStep hbound hfresh hserver
    rw [step, if_pos hfresh, hserver, Option.bind_some, hinform]
    rfl

/-- A connection on descriptor 9 is closed and destroyed, and the next one gets descriptor 9. -/
def nextOnNine : List Label :=
  ([.loop 0 .startLoop, .loop 0 .test, .poll 0 false [], .loop 1 .startLoop, .loop 1 .test,
    .newConnection, .loop 1 (.wakeup 0), .poll 1 true [], .loop 1 .handleRead,
    .loop 1 .endHandling, .loop 1 .swap, .runFunctor 1, .loop 1 .endFunctors, .loop 1 .test,
    .poll 1 false [0], .handleClose 0, .loop 0 (.wakeup 1), .nextChannel 1,
    .loop 1 .endHandling, .loop 0 .endHandling, .loop 0 .swap, .runFunctor 0,
    .loop 1 (.wakeup 0), .loop 1 .swap, .runFunctor 1, .loop 0 .endFunctors, .loop 0 .test,
    .poll 0 true []] : List TcpServer.Label).map .server ++
      [.close 0, .server .newConnection]

theorem descriptors_safe_next :
    ∃ s, run (step fun _ => 9) (new ⟨(127, 0, 0, 1), 8080⟩ [] 1) nextOnNine = some s ∧
      s.opened = [1] ∧ ∀ k, (s.pollers k).Consistent fun _ => 9 := by
  have hrun : (run (step fun _ => 9) (new ⟨(127, 0, 0, 1), 8080⟩ [] 1) nextOnNine).any
      (fun s => decide (s.opened = [1])) = true := by decide
  obtain ⟨s, hs, hopened⟩ := (Option.any_eq_true _ _).1 hrun
  have hbounded : Bounded nextOnNine := by
    refine ⟨by decide, fun c => ?_⟩
    by_cases hc : c = 0
    · subst hc
      decide
    · rw [List.count_eq_zero.2 (by simp [nextOnNine, hc])]
      exact Nat.zero_le _
  obtain ⟨-, hconsistent, -⟩ := descriptors_safe hs hbounded
  exact ⟨s, hs, of_decide_eq_true hopened, hconsistent⟩

end Descriptors

end TinyNetwork
