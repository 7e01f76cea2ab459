import TinyNetwork.Net.FunctorQueue
import TinyNetwork.Net.InetAddress
import TinyNetwork.Net.Lifecycle
import TinyNetwork.Net.TcpConnection

/-!
# `class TcpServer` (src/net/TcpServer.h, src/net/TcpServer.cpp)

A running server: the base loop, `numThreads` I/O loops, the map `connections_`, and the
`TcpConnection` objects in the order in which they were accepted.  The thread of loop `k` is named
`k`, and other threads have larger names.  Each loop goes through the phases of `EventLoop`; in
`handling` it iterates over `activeChannels_`, of which it is at the first channel.

A call of `queueInLoop` from another loop's thread is the push under the mutex and then the
`wakeup()`, as two steps; until the second the thread does nothing else (`Free`).  Everything in
front of the push touches data of one thread only and is one step with it.

What the handlers other than `handleClose` and the user's callbacks do to a connection itself is
the subject of `ConnLoop`; here they may queue functors of their own (`other`) on any loop.  The
logging calls, the addresses given to the connection and the copies of the callbacks are left out.
-/

namespace TinyNetwork

open Lts Bytes

/-- A `TcpConnection` object of the server: its place in the order of acceptance. -/
abbrev ConnId := ℕ

namespace TcpServer

/-- A functor of the server, or any `other` one. -/
inductive Functor
  | connectEstablished (c : ConnId)
  | removeConnectionInLoop (c : ConnId)
  | connectDestroyed (c : ConnId)
  | other
  deriving DecidableEq

/-- A connection as the server sees it, and its history. -/
structure Conn where
  name : Bytes
  loop : LoopId
  tcp : TcpConnection := {}
  history : List Lifecycle.Event := []

/-- One step of a thread. -/
inductive Label
  | loop (k : LoopId) (l : EventLoop.Label Functor)
  | poll (k : LoopId) (wakeupActive : Bool) (channels : List ConnId)
  | newConnection
  | handleEvent (c : ConnId)
  | handleClose (c : ConnId)
  | nextChannel (k : LoopId)
  | runFunctor (k : LoopId)
  deriving DecidableEq

end TcpServer

structure TcpServer where
  ipPort : Bytes
  name : Bytes
  numThreads : ℕ
  next : ℕ := 0
  nextConnId : BitVec 32 := 1
  connections : Bytes → Option ConnId := fun _ => none
  conns : List TcpServer.Conn := []
  loops : LoopId → EventLoop TcpServer.Functor := fun _ => EventLoop.new
  activeChannels : LoopId → List ConnId := fun _ => []

namespace TcpServer

/-- The constructor and `setThreadNum`. -/
def new (listenAddr : InetAddress) (nameArg : Bytes) (numThreads : ℕ) : TcpServer :=
  { ipPort := listenAddr.toIpPort, name := nameArg, numThreads := numThreads }

/-- `EventLoopThreadPool::getNextLoop()`. -/
def getNextLoop (s : TcpServer) : LoopId × TcpServer :=
  if s.numThreads = 0 then (baseLoop, s)
  else
    -- `loops_[next_]` is loop `next + 1`
    let next := s.next + 1
    (s.next + 1, { s with next := if s.numThreads ≤ next then 0 else next })

/-- `connName`: the server's name and what `snprintf` leaves in `buf`. -/
def connNameOf (name ipPort : Bytes) (nextConnId : BitVec 32) : Bytes :=
  name ++ snprintf 64 (ascii "-" ++ ipPort ++ ascii "#" ++ decimalInt nextConnId.toInt)

def connName (s : TcpServer) : Bytes := connNameOf s.name s.ipPort s.nextConnId

/-- `loops[k]->queueInLoop(f)`, up to the `wakeup()` if another thread calls it. -/
def queueInLoop (s : TcpServer) (thread k : LoopId) (f : Functor) : TcpServer :=
  let loop := s.loops k
  -- the caller of another loop is left in front of `wakeup()`
  let loop' :=
    if thread = k then loop.queueInLoop f
    else { loop.push f with callers := Function.update loop.callers thread .waking }
  { s with loops := Function.update s.loops k loop' }

/-- An action on connection `c` that leaves it as `tcp`. -/
def called (s : TcpServer) (thread : LoopId) (c : ConnId) (conn : Conn)
    (action : Lifecycle.Action) (tcp : TcpConnection) : TcpServer :=
  let e : Lifecycle.Event :=
    { action := action
      loop := thread
      phase := (s.loops thread).phase
      listed := s.connections conn.name == some c }
  { s with conns := s.conns.set c { conn with tcp := tcp, history := conn.history ++ [e] } }

def connectEstablished (s : TcpServer) (thread : LoopId) (c : ConnId) : Option TcpServer := do
  let conn ← s.conns[c]?
  some (s.called thread c conn .connectEstablished conn.tcp.connectEstablished.1)

def connectDestroyed (s : TcpServer) (thread : LoopId) (c : ConnId) : Option TcpServer := do
  let conn ← s.conns[c]?
  let r ← conn.tcp.connectDestroyed
  some (s.called thread c conn .connectDestroyed r.1)

def removeConnectionInLoop (s : TcpServer) (thread : LoopId) (c : ConnId) : Option TcpServer := do
  let conn ← s.conns[c]?
  -- `erase` goes by the name, whichever connection is entered under it
  let t := s.called thread c conn .removeConnectionInLoop conn.tcp
  let t := { t with connections := Function.update t.connections conn.name none }
  some (t.queueInLoop thread conn.loop (.connectDestroyed c))

/-- `functor()`. -/
def execute (s : TcpServer) (thread : LoopId) : Functor → Option TcpServer
  | .connectEstablished c => s.connectEstablished thread c
  | .removeConnectionInLoop c => s.removeConnectionInLoop thread c
  | .connectDestroyed c => s.connectDestroyed thread c
  | .other => some s

/-- `loops[k]->runInLoop(f)`. -/
def runInLoop (s : TcpServer) (thread k : LoopId) (f : Functor) : Option TcpServer :=
  if thread = k then s.execute thread f else some (s.queueInLoop thread k f)

def removeConnection (s : TcpServer) (thread : LoopId) (c : ConnId) : Option TcpServer :=
  s.runInLoop thread baseLoop (.removeConnectionInLoop c)

/-- `TcpConnection::handleClose()` with its `closeCallback_`. -/
def handleClose (s : TcpServer) (thread : LoopId) (c : ConnId) (conn : Conn) : Option TcpServer :=
  (s.called thread c conn .handleClose conn.tcp.handleClose.1).removeConnection thread c

/-- The connection is made and entered in `connections_`. -/
def accept (s : TcpServer) (ioLoop : LoopId) : TcpServer :=
  { s with
    nextConnId := s.nextConnId + 1
    conns := s.conns ++ [{ name := s.connName, loop := ioLoop }]
    connections := Function.update s.connections s.connName (some s.conns.length) }

def newConnection (s : TcpServer) : Option TcpServer :=
  let (ioLoop, t) := s.getNextLoop
  (t.accept ioLoop).runInLoop baseLoop ioLoop (.connectEstablished s.conns.length)

/-- The poller of loop `k` may report connection `c`. -/
def registered (s : TcpServer) (k : LoopId) (c : ConnId) : Bool :=
  match s.conns[c]? with
  | some conn => conn.loop == k && !conn.tcp.channel.isNoneEvent
  | none => false

/-- The thread is not inside a call of `queueInLoop` or `quit` on another loop. -/
def Free (s : TcpServer) (thread : Tid) : Prop :=
  ∀ k ≤ s.numThreads, (s.loops k).callers thread = .outside

instance (s : TcpServer) (thread : Tid) : Decidable (s.Free thread) := by
  unfold Free
  infer_instance

/-- The thread may call loop `k` from outside. -/
def MayCall (s : TcpServer) (k : LoopId) (thread : Tid) : Prop :=
  thread ≠ k ∧ s.Free thread ∧ (thread ≤ s.numThreads → (s.loops thread).InUserCode)

instance (s : TcpServer) (k : LoopId) (thread : Tid) : Decidable (s.MayCall k thread) := by
  unfold MayCall
  infer_instance

/-- The steps of a loop that are not modelled by labels of their own.  The functors that user code
queues are not the server's. -/
def Plain (s : TcpServer) (k : LoopId) : EventLoop.Label Functor → Prop
  | .runFunctor => False
  | .poll _ => False
  | .endHandling => s.Free k ∧ s.activeChannels k = []
  | .queueInLoop f => s.Free k ∧ f = .other
  | .pushFrom thread f => s.MayCall k thread ∧ f = .other
  | .quitFrom thread => s.MayCall k thread
  | .wakeup _ => True
  | .startLoop => s.Free k
  | .test => s.Free k
  | .handleRead => s.Free k
  | .swap => s.Free k
  | .endFunctors => s.Free k
  | .quitInLoop => s.Free k

instance (s : TcpServer) (k : LoopId) (l : EventLoop.Label Functor) : Decidable (s.Plain k l) := by
  cases l <;> unfold Plain <;> infer_instance

/-- Loop `k` is at the channel of connection `c` in `activeChannels_`. -/
def AtChannel (s : TcpServer) (k : LoopId) (c : ConnId) : Prop :=
  s.Free k ∧ (s.loops k).phase = .handling ∧ (s.activeChannels k).head? = some c

instance (s : TcpServer) (k : LoopId) (c : ConnId) : Decidable (s.AtChannel k c) := by
  unfold AtChannel
  infer_instance

/-- One step. -/
def step (s : TcpServer) : Label → Option TcpServer
  | .loop k l =>
    if k ≤ s.numThreads ∧ s.Plain k l then
      ((s.loops k).step l).map fun e => { s with loops := Function.update s.loops k e }
    else none
  | .poll k wakeupActive channels =>
    if k ≤ s.numThreads ∧ s.Free k ∧ ∀ c ∈ channels, s.registered k c = true then
      ((s.loops k).step (.poll wakeupActive)).map fun e =>
        { s with
          loops := Function.update s.loops k e
          activeChannels := Function.update s.activeChannels k channels }
    else none
  | .newConnection =>
    if s.Free baseLoop ∧ (s.loops baseLoop).phase = .handling then s.newConnection else none
  | .handleEvent c =>
    match s.conns[c]? with
    | some conn =>
      if s.AtChannel conn.loop c then some (s.called conn.loop c conn .handleEvent conn.tcp)
      else none
    | none => none
  | .handleClose c =>
    match s.conns[c]? with
    | some conn => if s.AtChannel conn.loop c then s.handleClose conn.loop c conn else none
    | none => none
  | .nextChannel k =>
    if k ≤ s.numThreads ∧ s.Free k then
      some { s with
        activeChannels := Function.update s.activeChannels k (s.activeChannels k).tail }
    else none
  | .runFunctor k =>
    if k ≤ s.numThreads ∧ s.Free k then
      match (s.loops k).functors with
      | f :: _ =>
        ((s.loops k).step .runFunctor).bind fun e =>
          { s with loops := Function.update s.loops k e }.execute k f
      | [] => none
    else none

end TcpServer

end TinyNetwork
