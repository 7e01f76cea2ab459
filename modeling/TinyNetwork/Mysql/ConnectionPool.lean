import TinyNetwork.Lib.Run
import TinyNetwork.Base.Integers
import Mathlib.Logic.Function.Basic
import Mathlib.Algebra.Ring.Int.Defs

/-!
# `class ConnectionPool` (src/mysql/ConnectionPool.h, src/mysql/ConnectionPool.cpp)

The pool, the threads that call `getConnection`, the clients that hold connections, the producer
and the recycler.  A label is one critical section of `mtx_`, from the moment the mutex is taken
until it is given up, at the end of a scope or in a wait on `cond_`; so every state is one in which
`mtx_` is free.  A wait may end at any time: by a notification, by its timeout or spuriously.

The answers of `connect` and of the steady clock (in nanoseconds) are given by the labels.  An
object is named by the place of its `new` among all of them; `deleted` names the objects deleted.
`currentSize_` is an `int`, which is taken not to overflow.
-/

namespace TinyNetwork

/-- The name of a thread that uses the pool. -/
abbrev ClientId := ℕ

/-- An object of `class MysqlConn`, with what its `connect()` returned. -/
structure MysqlConn where
  id : ℕ
  connected : Bool
  lastActiveTime : ℤ
  deriving DecidableEq

namespace MysqlConn

def refreshAliveTime (conn : MysqlConn) (now : ℤ) : MysqlConn := { conn with lastActiveTime := now }

/-- In milliseconds. -/
def getAliveTime (conn : MysqlConn) (now : ℤ) : ℤ := (now - conn.lastActiveTime).tdiv 1000000

end MysqlConn

namespace ConnectionPool

/-- A thread is in `getConnection` only while it waits on `cond_`, and has been notified or not. -/
inductive Caller
  | idle
  | waiting (notified : Bool)
  deriving DecidableEq

inductive Label
  | getConnection (c : ClientId)
  | wake (c : ClientId)
  | release (c : ClientId) (conn : MysqlConn) (now : ℤ)
  | produceConnection (connected : Bool) (now : ℤ)
  | recycleConnection (now : ℕ → ℤ)

end ConnectionPool

structure ConnectionPool where
  minSize : ℤ
  maxSize : ℤ
  maxIdleTime : ℤ
  currentSize : ℤ := 0
  connQueue : List MysqlConn := []
  lent : List (ClientId × MysqlConn) := []
  callers : ClientId → ConnectionPool.Caller := fun _ => .idle
  nextId : ℕ := 0
  deleted : List ℕ := []

namespace ConnectionPool

/-- `cond_.notify_all()`. -/
def notifyAll (s : ConnectionPool) : ConnectionPool :=
  { s with
    callers := fun c =>
      match s.callers c with
      | .idle => .idle
      | .waiting _ => .waiting true }

def addConnection (s : ConnectionPool) (connected : Bool) (now : ℤ) : ConnectionPool :=
  { s with
    connQueue := s.connQueue ++ [⟨s.nextId, connected, now⟩]
    currentSize := s.currentSize + 1
    nextId := s.nextId + 1 }

/-- `currentSize_++`. -/
def countUp (s : ConnectionPool) : ConnectionPool := { s with currentSize := s.currentSize + 1 }

/-- The loop of the constructor; `answers i` are the result of the `i`-th `connect()` and the time
of the `i`-th `refreshAliveTime()`. -/
def fill (s : ConnectionPool) (answers : ℕ → Bool × ℤ) : ℕ → ConnectionPool
  | 0 => s
  | n + 1 => ((s.fill answers n).addConnection (answers n).1 (answers n).2).countUp

/-- The constructor; `currentSize_` of the function-local static is zero before. -/
def construct (minSize maxSize maxIdleTime : ℤ) (answers : ℕ → Bool × ℤ) : ConnectionPool :=
  ConnectionPool.fill { minSize := minSize, maxSize := maxSize, maxIdleTime := maxIdleTime }
    answers minSize.toNat

/-- A pass of `produceConnection`, which waits while there are idle connections. -/
def produceConnection (s : ConnectionPool) (connected : Bool) (now : ℤ) : ConnectionPool :=
  if s.connQueue.isEmpty then
    if s.currentSize < s.maxSize then ((s.addConnection connected now).countUp).notifyAll else s
  else s

/-- The loop of `recycleConnection`: the connections kept and the connections deleted.  Iteration
`i` reads the clock at `now i`. -/
def recycleLoop (minSize maxIdleTime : ℤ) (now : ℕ → ℤ) :
    ℕ → List MysqlConn → List MysqlConn × List MysqlConn
  | _, [] => ([], [])
  | i, conn :: rest =>
    if toSizeT minSize < (conn :: rest).length then
      if maxIdleTime ≤ conn.getAliveTime (now i) then
        let r := recycleLoop minSize maxIdleTime now (i + 1) rest
        (r.1, conn :: r.2)
      else (conn :: rest, [])
    else (conn :: rest, [])

/-- A pass of `recycleConnection`. -/
def recycleConnection (s : ConnectionPool) (now : ℕ → ℤ) : ConnectionPool :=
  let r := recycleLoop s.minSize s.maxIdleTime now 0 s.connQueue
  { s with
    connQueue := r.1
    currentSize := s.currentSize - r.2.length
    deleted := s.deleted ++ r.2.map MysqlConn.id }

/-- `getConnection` with the mutex held: wait, or take the connection in front. -/
def getConnection (s : ConnectionPool) (c : ClientId) : ConnectionPool :=
  match s.connQueue with
  | [] => { s with callers := Function.update s.callers c (.waiting false) }
  | conn :: rest =>
    { s with
      connQueue := rest
      lent := s.lent ++ [(c, conn)]
      callers := Function.update s.callers c .idle }.notifyAll

/-- The deleter of the `std::shared_ptr` that client `c` holds. -/
def release (s : ConnectionPool) (c : ClientId) (conn : MysqlConn) (now : ℤ) : ConnectionPool :=
  { s with
    lent := s.lent.erase (c, conn)
    connQueue := s.connQueue ++ [conn.refreshAliveTime now] }

/-- One critical section. -/
def step (s : ConnectionPool) : Label → Option ConnectionPool
  | .getConnection c => if s.callers c = .idle then some (s.getConnection c) else none
  | .wake c => if s.callers c = .idle then none else some (s.getConnection c)
  | .release c conn now => if (c, conn) ∈ s.lent then some (s.release c conn now) else none
  | .produceConnection connected now => some (s.produceConnection connected now)
  | .recycleConnection now => some (s.recycleConnection now)

/-- The number of live connections: idle ones and those lent out. -/
def live (s : ConnectionPool) : ℕ := s.connQueue.length + s.lent.length

end ConnectionPool

end TinyNetwork
