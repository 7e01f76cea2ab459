import Mathlib.Algebra.BigOperators.Fin
import Mathlib.Algebra.Order.BigOperators.Group.Finset
import TinyNetwork.Net.TcpServer

/-!
# Who keeps a connection alive

A server with its base loop `0` and `n` I/O loops, its `TcpConnection` objects and all that owns
them: the entries of `connections_`, the `TcpConnectionPtr`s that threads hold, and the functors
that are bound to one.  `send` and `shutdown` called by another thread bind `sendInLoop` and
`shutdownInLoop` to the plain `this`, and the server binds `removeConnectionInLoop` and the
`closeCallback_` to its own.

A connection is destroyed when its count comes to zero.  The functors of a batch are destroyed
together when `doPendingFunctors` returns, so they own their connections until then.  A functor
whose target is gone ends the run (`stopped`), and so does a failed assertion.

The loop of a connection is what `getNextLoop` gives.  Steps of the loop threads are event handlers
and functors; `~TcpServer` treats one connection at a time, in the thread of a loop or in another.
The loops do not end here, and what the user callbacks do is left to the other labels.
-/

namespace TinyNetwork

open Lts
open TcpConnection (Effect)

namespace Ownership

/-- A functor in a queue. -/
inductive Functor
  | connectEstablished (c : ConnId)
  | connectDestroyed (c : ConnId)
  | removeConnectionInLoop (c : ConnId)
  | sendInLoop (c : ConnId) (message : Bytes)
  | shutdownInLoop (c : ConnId)
  | callback (c : ConnId) (f : TcpConnection.Functor)
  deriving DecidableEq

namespace Functor

/-- The connection that a bound `TcpConnectionPtr` owns. -/
def owned : Functor → Option ConnId
  | connectEstablished c => some c
  | connectDestroyed c => some c
  | removeConnectionInLoop c => some c
  | callback c _ => some c
  | sendInLoop _ _ => none
  | shutdownInLoop _ => none

/-- The connection whose plain `this` is bound. -/
def raw : Functor → Option ConnId
  | sendInLoop c _ => some c
  | shutdownInLoop c => some c
  | connectEstablished _ => none
  | connectDestroyed _ => none
  | removeConnectionInLoop _ => none
  | callback _ _ => none

/-- It is bound to the plain `this` of the server. -/
def ofServer : Functor → Bool
  | removeConnectionInLoop _ => true
  | _ => false

theorem ofServer_of_raw {f : Functor} {c : ConnId} (h : f.raw = some c) : f.ofServer = false := by
  cases f with
  | removeConnectionInLoop _ => cases h
  | _ => rfl

end Functor

/-- Where a thread is in a call of `send` or `shutdown` on a connection. -/
inductive ThreadCall
  | outside
  | sending (c : ConnId) (message : Bytes)
  | shutdownTested (c : ConnId)
  | shutdownStored (c : ConnId)
  deriving DecidableEq

def ThreadCall.conn : ThreadCall → Option ConnId
  | outside => none
  | sending c _ => some c
  | shutdownTested c => some c
  | shutdownStored c => some c

/-- The `TcpServer` object; its destructor runs in the thread of a loop, or in none of them. -/
inductive Server (n : ℕ)
  | alive
  | destroying (thread : Option (Fin (n + 1)))
  | destroyed
  deriving DecidableEq

inductive Label (n : ℕ)
  | newConnection (writeComplete highWater : Bool) (mark : ℕ)
  | swap (k : Fin (n + 1))
  | runFunctor (k : Fin (n + 1)) (w : WriteResult)
  | endFunctors (k : Fin (n + 1))
  | handleClose (c : ConnId)
  | handleWrite (c : ConnId) (heap : Heap) (w : WriteResult)
  | sendHere (c : ConnId) (message : Bytes) (w : WriteResult)
  | shutdownHere (c : ConnId)
  | acquire (t : Tid) (c : ConnId)
  | release (t : Tid) (c : ConnId)
  | sendTest (t : Tid) (c : ConnId) (message : Bytes)
  | sendPush (t : Tid)
  | shutdownTest (t : Tid) (c : ConnId)
  | shutdownStore (t : Tid)
  | shutdownPush (t : Tid)
  | destroyServer (thread : Option (Fin (n + 1)))
  | destroyNext (c : ConnId)
  | destroyEnd

end Ownership

open Ownership in
/-- `functors` is the rest of the batch that a loop executes and `called` the part before; `held`
are the `TcpConnectionPtr`s of the threads. -/
structure Ownership (n : ℕ) where
  ioLoop : ConnId → Fin (n + 1)
  accepted : ℕ := 0
  tcp : ConnId → TcpConnection := fun _ => {}
  connections : List ConnId := []
  held : List (Tid × ConnId) := []
  calls : Tid → ThreadCall := fun _ => .outside
  pendingFunctors : Fin (n + 1) → List Functor := fun _ => []
  functors : Fin (n + 1) → List Functor := fun _ => []
  called : Fin (n + 1) → List Functor := fun _ => []
  server : Server n := .alive
  stopped : Bool := false

namespace Ownership

variable {n : ℕ}

/-- A server that has not accepted a connection yet. -/
def new (ioLoop : ConnId → Fin (n + 1)) : Ownership n := { ioLoop := ioLoop }

/-- The functors that exist in the queue and in the batch of a loop. -/
def existing (s : Ownership n) (k : Fin (n + 1)) : List Functor :=
  s.pendingFunctors k ++ s.functors k ++ s.called k

/-- `use_count()`. -/
def refCount (s : Ownership n) (c : ConnId) : ℕ :=
  s.connections.count c + (s.held.map Prod.snd).count c +
    ∑ k, ((s.existing k).filterMap Functor.owned).count c

/-- What a functor is bound to has not been destroyed. -/
def TargetAlive (s : Ownership n) : Functor → Prop
  | .connectEstablished c => 0 < s.refCount c
  | .connectDestroyed c => 0 < s.refCount c
  | .removeConnectionInLoop c => s.server = .alive ∧ 0 < s.refCount c
  | .sendInLoop c _ => 0 < s.refCount c
  | .shutdownInLoop c => 0 < s.refCount c
  | .callback c _ => 0 < s.refCount c

instance (s : Ownership n) (f : Functor) : Decidable (s.TargetAlive f) := by
  cases f <;> unfold TargetAlive <;> infer_instance

/-- The thread of the loop is not in `~TcpServer`. -/
def Free (s : Ownership n) (k : Fin (n + 1)) : Prop := s.server ≠ .destroying (some k)

instance (s : Ownership n) (k : Fin (n + 1)) : Decidable (s.Free k) := by
  unfold Free
  infer_instance

/-- The loop is not in `doPendingFunctors`. -/
def Idle (s : Ownership n) (k : Fin (n + 1)) : Prop :=
  s.Free k ∧ s.functors k = [] ∧ s.called k = []

instance (s : Ownership n) (k : Fin (n + 1)) : Decidable (s.Idle k) := by
  unfold Idle
  infer_instance

/-- `handleEvent` of the channel of an established connection: `tie_.lock()` succeeds. -/
def AtChannel (s : Ownership n) (c : ConnId) : Prop :=
  0 < s.refCount c ∧ s.Idle (s.ioLoop c) ∧ (s.tcp c).state ≠ .kConnecting

instance (s : Ownership n) (c : ConnId) : Decidable (s.AtChannel c) := by
  unfold AtChannel
  infer_instance

def setCall (s : Ownership n) (t : Tid) (call : ThreadCall) : Ownership n :=
  { s with calls := Function.update s.calls t call }

/-- `queueInLoop`, for functors in a row. -/
def queueInLoop (s : Ownership n) (k : Fin (n + 1)) (fs : List Functor) : Ownership n :=
  { s with pendingFunctors := Function.update s.pendingFunctors k (s.pendingFunctors k ++ fs) }

/-- A member function of a connection is run by its loop. -/
def perform (s : Ownership n) (c : ConnId) (r : TcpConnection × List Effect) : Ownership n :=
  { s with tcp := Function.update s.tcp c r.1 }.queueInLoop (s.ioLoop c)
    ((r.2.filterMap Effect.queued).map (.callback c))

def connectDestroyed (s : Ownership n) (c : ConnId) : Ownership n :=
  match (s.tcp c).connectDestroyed with
  | some r => s.perform c r
  | none => { s with stopped := true }

def removeConnectionInLoop (s : Ownership n) (c : ConnId) : Ownership n :=
  { s with connections := s.connections.erase c }.queueInLoop (s.ioLoop c) [.connectDestroyed c]

/-- `removeConnection`, called by the thread of the loop of the connection. -/
def removeConnection (s : Ownership n) (c : ConnId) : Ownership n :=
  if s.ioLoop c = 0 then s.removeConnectionInLoop c
  else s.queueInLoop 0 [.removeConnectionInLoop c]

/-- `handleClose`; the last thing it does is to call `closeCallback_`. -/
def handleClose (s : Ownership n) (c : ConnId) : Ownership n :=
  let t := s.perform c (s.tcp c).handleClose
  if t.server = .alive then t.removeConnection c else { t with stopped := true }

def newConnection (s : Ownership n) (conn : TcpConnection) : Ownership n :=
  let c := s.accepted
  let t := { s with
    accepted := s.accepted + 1
    tcp := Function.update s.tcp c conn
    connections := s.connections ++ [c] }
  if s.ioLoop c = 0 then t.perform c (t.tcp c).connectEstablished
  else t.queueInLoop (s.ioLoop c) [.connectEstablished c]

/-- The functor is called. -/
def execute (s : Ownership n) (f : Functor) (w : WriteResult) : Option (Ownership n) :=
  match f with
  | .connectEstablished c => some (s.perform c (s.tcp c).connectEstablished)
  | .connectDestroyed c => some (s.connectDestroyed c)
  | .removeConnectionInLoop c => some (s.removeConnectionInLoop c)
  | .sendInLoop c m =>
    if w.Fits m.length then some (s.perform c ((s.tcp c).sendInLoop m w)) else none
  | .shutdownInLoop c => some (s.perform c (s.tcp c).shutdownInLoop)
  | .callback _ _ => some s

/-- The functor goes from the rest of the batch to the part that was called. -/
def take (s : Ownership n) (k : Fin (n + 1)) (f : Functor) (rest : List Functor) : Ownership n :=
  { s with
    functors := Function.update s.functors k rest
    called := Function.update s.called k (s.called k ++ [f]) }

/-- `~TcpServer` at one connection. -/
def destroyNext (s : Ownership n) (thread : Option (Fin (n + 1))) (c : ConnId) : Ownership n :=
  let t := { s with connections := s.connections.erase c }
  if thread = some (s.ioLoop c) then t.connectDestroyed c
  else t.queueInLoop (s.ioLoop c) [.connectDestroyed c]

def step (s : Ownership n) (l : Label n) : Option (Ownership n) :=
  if s.stopped then none
  else
    match l with
    | .newConnection writeComplete highWater mark =>
      if s.server = .alive ∧ s.Idle 0 then
        some (s.newConnection {
          writeCompleteCallback := writeComplete
          highWaterMarkCallback := highWater
          highWaterMark := mark })
      else none
    | .swap k =>
      -- `doPendingFunctors` begins
      if s.Idle k then
        some { s with
          pendingFunctors := Function.update s.pendingFunctors k []
          functors := Function.update s.functors k (s.pendingFunctors k) }
      else none
    | .runFunctor k w =>
      match s.functors k with
      | f :: rest =>
        if s.Free k then
          if s.TargetAlive f then (s.take k f rest).execute f w
          -- the behaviour is undefined
          else some { s with stopped := true }
        else none
      | [] => none
    | .endFunctors k =>
      -- the vector of functors goes out of scope, and what it owns with it
      if s.Free k ∧ s.functors k = [] then
        some { s with called := Function.update s.called k [] }
      else none
    | .handleClose c => if s.AtChannel c then some (s.handleClose c) else none
    | .handleWrite c heap w =>
      if s.AtChannel c ∧ w.Fits (s.tcp c).outputBuffer.readableBytes then
        some (s.perform c ((s.tcp c).handleWrite heap w))
      else none
    | .sendHere c m w =>
      if 0 < s.refCount c ∧ s.Free (s.ioLoop c) ∧ w.Fits m.length then
        some (s.perform c ((s.tcp c).send m true w))
      else none
    | .shutdownHere c =>
      if 0 < s.refCount c ∧ s.Free (s.ioLoop c) then
        some (s.perform c ((s.tcp c).shutdown true))
      else none
    | .acquire t c => if 0 < s.refCount c then some { s with held := (t, c) :: s.held } else none
    | .release t c =>
      if (t, c) ∈ s.held ∧ s.calls t = .outside then
        some { s with held := s.held.erase (t, c) }
      else none
    | .sendTest t c m =>
      if (t, c) ∈ s.held ∧ s.calls t = .outside then
        some (if (s.tcp c).state = .kConnected then s.setCall t (.sending c m) else s)
      else none
    | .sendPush t =>
      match s.calls t with
      | .sending c m => some ((s.queueInLoop (s.ioLoop c) [.sendInLoop c m]).setCall t .outside)
      | _ => none
    | .shutdownTest t c =>
      if (t, c) ∈ s.held ∧ s.calls t = .outside then
        some (if (s.tcp c).state = .kConnected then s.setCall t (.shutdownTested c) else s)
      else none
    | .shutdownStore t =>
      match s.calls t with
      | .shutdownTested c =>
        some ({ s with tcp := Function.update s.tcp c ((s.tcp c).setState .kDisconnecting) }.setCall
          t (.shutdownStored c))
      | _ => none
    | .shutdownPush t =>
      match s.calls t with
      | .shutdownStored c =>
        some ((s.queueInLoop (s.ioLoop c) [.shutdownInLoop c]).setCall t .outside)
      | _ => none
    | .destroyServer thread =>
      if s.server = .alive then some { s with server := .destroying thread } else none
    | .destroyNext c =>
      match s.server with
      | .destroying thread => if c ∈ s.connections then some (s.destroyNext thread c) else none
      | _ => none
    | .destroyEnd =>
      match s.server with
      | .destroying _ => if s.connections = [] then some { s with server := .destroyed } else none
      | _ => none

/-! ### The count -/

/-- An entry of `connections_` or a thread keeps the connection. -/
def Kept (s : Ownership n) (c : ConnId) : Prop := c ∈ s.connections ∨ c ∈ s.held.map Prod.snd

theorem refCount_pos_of_kept {s : Ownership n} {c : ConnId} (h : s.Kept c) : 0 < s.refCount c := by
  unfold refCount
  rcases h with hlisted | hheld
  · have := List.count_pos_iff.2 hlisted
    omega
  · have := List.count_pos_iff.2 hheld
    omega

theorem refCount_pos_of_owned {s : Ownership n} {c : ConnId} {k : Fin (n + 1)} {f : Functor}
    (hf : f ∈ s.existing k) (ho : f.owned = some c) : 0 < s.refCount c := by
  have hcount : 0 < ((s.existing k).filterMap Functor.owned).count c :=
    List.count_pos_iff.2 (List.mem_filterMap.2 ⟨f, hf, ho⟩)
  have hle := Finset.single_le_sum
    (f := fun k => ((s.existing k).filterMap Functor.owned).count c) (fun _ _ => Nat.zero_le _)
    (Finset.mem_univ k)
  unfold refCount
  omega

/-! ### Functors bound to a plain `this` -/

/-- One of `fs` is bound to the plain `this` of `c`, and none of `owners` owns `c`. -/
def Bare (c : ConnId) (fs owners : List Functor) : Prop :=
  (∃ f ∈ fs, f.raw = some c) ∧ ∀ f ∈ owners, f.owned ≠ some c

instance (c : ConnId) (fs owners : List Functor) : Decidable (Bare c fs owners) := by
  unfold Bare
  infer_instance

/-- A functor bound to the plain `this` of `c` waits, and no functor keeps `c` until it is called:
in the queue those of the same queue do, in the batch all that exist in this loop. -/
def Exposed (s : Ownership n) (c : ConnId) : Prop :=
  ∃ k, Bare c (s.pendingFunctors k) (s.pendingFunctors k) ∨ Bare c (s.functors k) (s.existing k)

instance (s : Ownership n) (c : ConnId) : Decidable (s.Exposed c) := by
  unfold Exposed
  infer_instance

theorem Bare.mono {c : ConnId} {fs fs' owners owners' : List Functor} (h : Bare c fs owners)
    (hfs : ∀ f ∈ fs, f.raw = some c → f ∈ fs') (howners : ∀ f ∈ owners', f.owned = some c → f ∈ owners) :
    Bare c fs' owners' := by
  obtain ⟨⟨f, hf, hraw⟩, hnone⟩ := h
  exact ⟨⟨f, hfs f hf hraw, hraw⟩, fun g hg ho => hnone g (howners g hg ho) ho⟩

/-- The functors that wait in a loop. -/
def waiting (s : Ownership n) (k : Fin (n + 1)) : List Functor :=
  s.pendingFunctors k ++ s.functors k

/-- What waits is waited for: each functor bound to a plain `this` waits in the loop of its
connection, which is kept until then; the server lives while `removeConnectionInLoop` waits. -/
structure Owned (s : Ownership n) : Prop where
  kept : ∀ c, s.Exposed c → s.Kept c
  place : ∀ k, ∀ f ∈ s.waiting k, ∀ c, f.raw = some c → k = s.ioLoop c
  served : ∀ k, ∀ f ∈ s.waiting k, f.ofServer = true → s.server = .alive
  calls : ∀ t c, (s.calls t).conn = some c → (t, c) ∈ s.held

theorem owned_new (ioLoop : ConnId → Fin (n + 1)) : (new ioLoop).Owned := by
  refine ⟨?_, ?_, ?_, ?_⟩
  · rintro c ⟨k, ⟨⟨f, hf, -⟩, -⟩ | ⟨⟨f, hf, -⟩, -⟩⟩
    · exact absurd hf List.not_mem_nil
    · exact absurd hf List.not_mem_nil
  · exact fun k f hf => absurd hf List.not_mem_nil
  · exact fun k f hf => absurd hf List.not_mem_nil
  · intro t c h
    cases h

/-- A functor about to be called has its target. -/
theorem Owned.targetAlive {s : Ownership n} (hs : s.Owned) {k : Fin (n + 1)} {f : Functor}
    (hf : f ∈ s.functors k) : s.TargetAlive f := by
  have hexisting : f ∈ s.existing k := List.mem_append_left _ (List.mem_append_right _ hf)
  have hraw : ∀ c, f.raw = some c → 0 < s.refCount c := by
    intro c hc
    by_cases hexposed : s.Exposed c
    · exact refCount_pos_of_kept (hs.kept c hexposed)
    · have hbare : ¬ Bare c (s.functors k) (s.existing k) := fun h => hexposed ⟨k, .inr h⟩
      simp only [Bare, not_and, not_forall, not_not] at hbare
      obtain ⟨g, hg, ho⟩ := hbare ⟨f, hf, hc⟩
      exact refCount_pos_of_owned hg ho
  cases f with
  | connectEstablished c => exact refCount_pos_of_owned hexisting rfl
  | connectDestroyed c => exact refCount_pos_of_owned hexisting rfl
  | removeConnectionInLoop c =>
    exact ⟨hs.served k _ (List.mem_append_right _ hf) rfl, refCount_pos_of_owned hexisting rfl⟩
  | sendInLoop c m => exact hraw c rfl
  | shutdownInLoop c => exact hraw c rfl
  | callback c f => exact refCount_pos_of_owned hexisting rfl

/-! ### Each operation keeps it so -/

theorem mem_pendingFunctors_queueInLoop {s : Ownership n} {k k' : Fin (n + 1)} {fs : List Functor}
    {f : Functor} : f ∈ (s.queueInLoop k fs).pendingFunctors k' ↔
      f ∈ s.pendingFunctors k' ∨ (k' = k ∧ f ∈ fs) := by
  by_cases hk : k' = k
  · subst hk
    simp [queueInLoop]
  · simp [queueInLoop, hk]

theorem mem_waiting_queueInLoop {s : Ownership n} {k k' : Fin (n + 1)} {fs : List Functor}
    {f : Functor} : f ∈ (s.queueInLoop k fs).waiting k' ↔
      f ∈ s.waiting k' ∨ (k' = k ∧ f ∈ fs) := by
  unfold waiting
  rw [List.mem_append, List.mem_append, mem_pendingFunctors_queueInLoop, or_right_comm]
  rfl

theorem mem_existing_queueInLoop {s : Ownership n} {k k' : Fin (n + 1)} {fs : List Functor}
    {f : Functor} (h : f ∈ s.existing k' ∨ (k' = k ∧ f ∈ fs)) :
    f ∈ (s.queueInLoop k fs).existing k' := by
  show f ∈ (s.queueInLoop k fs).waiting k' ++ s.called k'
  rw [List.mem_append, mem_waiting_queueInLoop, or_right_comm, ← List.mem_append]
  exact h

/-- A connection newly exposed has a functor among those queued. -/
theorem exposed_queueInLoop {s : Ownership n} {k : Fin (n + 1)} {fs : List Functor} {c : ConnId}
    (h : (s.queueInLoop k fs).Exposed c) : s.Exposed c ∨ ∃ f ∈ fs, f.raw = some c := by
  obtain ⟨k', ⟨⟨f, hf, hraw⟩, hnone⟩ | hbatch⟩ := h
  · rcases mem_pendingFunctors_queueInLoop.1 hf with hold | ⟨-, hnew⟩
    · exact .inl ⟨k', .inl ⟨⟨f, hold, hraw⟩, fun g hg =>
        hnone g (mem_pendingFunctors_queueInLoop.2 (.inl hg))⟩⟩
    · exact .inr ⟨f, hnew, hraw⟩
  · exact .inl ⟨k', .inr (hbatch.mono (fun f hf _ => hf) fun f hf _ =>
      mem_existing_queueInLoop (.inl hf))⟩

/-- A functor that owns the connection, queued on its loop, keeps it for all those that wait. -/
theorem Owned.not_exposed {s : Ownership n} (hs : s.Owned) {c : ConnId} {g : Functor}
    (ho : g.owned = some c) : ¬ (s.queueInLoop (s.ioLoop c) [g]).Exposed c := by
  have hplace : ∀ k', ∀ f ∈ (s.queueInLoop (s.ioLoop c) [g]).waiting k', f.raw = some c →
      k' = s.ioLoop c := by
    intro k' f hf hraw
    rcases mem_waiting_queueInLoop.1 hf with hold | ⟨hk, -⟩
    · exact hs.place k' f hold c hraw
    · exact hk
  rintro ⟨k', ⟨⟨f, hf, hraw⟩, hnone⟩ | ⟨⟨f, hf, hraw⟩, hnone⟩⟩
  · have hk := hplace k' f (List.mem_append_left _ hf) hraw
    exact hnone g (mem_pendingFunctors_queueInLoop.2 (.inr ⟨hk, List.mem_singleton_self g⟩)) ho
  · have hk := hplace k' f (List.mem_append_right _ hf) hraw
    exact hnone g (mem_existing_queueInLoop (.inr ⟨hk, List.mem_singleton_self g⟩)) ho

theorem Owned.queueInLoop {s : Ownership n} (hs : s.Owned) {k : Fin (n + 1)} {fs : List Functor}
    (hraw : ∀ f ∈ fs, ∀ c, f.raw = some c → k = s.ioLoop c ∧ s.Kept c)
    (hserved : ∀ f ∈ fs, f.ofServer = true → s.server = .alive) :
    (s.queueInLoop k fs).Owned := by
  refine ⟨fun c h => ?_, fun k' f hf c hc => ?_, fun k' f hf hc => ?_, hs.calls⟩
  · rcases exposed_queueInLoop h with hold | ⟨f, hf, hc⟩
    · exact hs.kept c hold
    · exact (hraw f hf c hc).2
  · rcases mem_waiting_queueInLoop.1 hf with hold | ⟨rfl, hnew⟩
    · exact hs.place k' f hold c hc
    · exact (hraw f hnew c hc).1
  · rcases mem_waiting_queueInLoop.1 hf with hold | ⟨-, hnew⟩
    · exact hs.served k' f hold hc
    · exact hserved f hnew hc

theorem Owned.queueOwner {s : Ownership n} (hs : s.Owned) {k : Fin (n + 1)} {f : Functor}
    (hraw : f.raw = none) (hserved : f.ofServer = true → s.server = .alive) :
    (s.queueInLoop k [f]).Owned := by
  refine hs.queueInLoop (fun g hg c hc => ?_) fun g hg hc => ?_
  · rw [List.mem_singleton.1 hg, hraw] at hc
    cases hc
  · exact hserved (List.mem_singleton.1 hg ▸ hc)

theorem Owned.perform {s : Ownership n} (hs : s.Owned) (c : ConnId)
    (r : TcpConnection × List Effect) : (s.perform c r).Owned := by
  have htcp : ({ s with tcp := Function.update s.tcp c r.1 } : Ownership n).Owned :=
    ⟨hs.kept, hs.place, hs.served, hs.calls⟩
  refine htcp.queueInLoop (fun f hf d hd => ?_) fun f hf hd => ?_
  · obtain ⟨x, -, rfl⟩ := List.mem_map.1 hf
    cases hd
  · obtain ⟨x, -, rfl⟩ := List.mem_map.1 hf
    cases hd

theorem Owned.connectDestroyed {s : Ownership n} (hs : s.Owned) (c : ConnId) :
    (s.connectDestroyed c).Owned := by
  unfold Ownership.connectDestroyed
  split
  · exact hs.perform c _
  · exact ⟨hs.kept, hs.place, hs.served, hs.calls⟩

/-- The connection leaves `connections_`; `connectDestroyed`, queued on its loop, owns it now. -/
theorem Owned.unlist {s : Ownership n} (hs : s.Owned) (c : ConnId) :
    (s.removeConnectionInLoop c).Owned := by
  refine ⟨fun d h => ?_, fun k f hf d hd => ?_, fun k f hf hd => ?_, hs.calls⟩
  · have hne : d ≠ c := by
      rintro rfl
      exact hs.not_exposed (g := .connectDestroyed d) rfl h
    have hold : s.Exposed d := by
      rcases exposed_queueInLoop h with hold | ⟨f, hf, hraw⟩
      · exact hold
      · rw [List.mem_singleton.1 hf] at hraw
        cases hraw
    exact (hs.kept d hold).imp_left (List.mem_erase_of_ne hne).2
  · rcases mem_waiting_queueInLoop.1 hf with hold | ⟨-, hnew⟩
    · exact hs.place k f hold d hd
    · rw [List.mem_singleton.1 hnew] at hd
      cases hd
  · rcases mem_waiting_queueInLoop.1 hf with hold | ⟨-, hnew⟩
    · exact hs.served k f hold hd
    · rw [List.mem_singleton.1 hnew] at hd
      cases hd

theorem Owned.removeConnection {s : Ownership n} (hs : s.Owned) (halive : s.server = .alive)
    (c : ConnId) : (s.removeConnection c).Owned := by
  unfold Ownership.removeConnection
  split_ifs
  · exact hs.unlist c
  · exact hs.queueOwner rfl fun _ => halive

theorem Owned.handleClose {s : Ownership n} (hs : s.Owned) (c : ConnId) :
    (s.handleClose c).Owned := by
  have hclosed := hs.perform c (s.tcp c).handleClose
  unfold Ownership.handleClose
  simp only
  split_ifs with halive
  · exact hclosed.removeConnection halive c
  · exact ⟨hclosed.kept, hclosed.place, hclosed.served, hclosed.calls⟩

theorem Owned.newConnection {s : Ownership n} (hs : s.Owned) (conn : TcpConnection) :
    (s.newConnection conn).Owned := by
  have hlisted : ({ s with
      accepted := s.accepted + 1
      tcp := Function.update s.tcp s.accepted conn
      connections := s.connections ++ [s.accepted] } : Ownership n).Owned :=
    ⟨fun c h => (hs.kept c h).imp_left (List.mem_append_left _), hs.place, hs.served, hs.calls⟩
  unfold Ownership.newConnection
  simp only
  split_ifs
  · exact hlisted.perform s.accepted _
  · exact hlisted.queueOwner rfl fun h => by cases h

theorem Owned.take {s : Ownership n} (hs : s.Owned) {k : Fin (n + 1)} {f : Functor}
    {rest : List Functor} (h : s.functors k = f :: rest) : (s.take k f rest).Owned := by
  have hfunctors : ∀ k', ∀ g ∈ (s.take k f rest).functors k', g ∈ s.functors k' := by
    intro k' g hg
    by_cases hk : k' = k
    · subst hk
      rw [h]
      simp only [Ownership.take, Function.update_self] at hg
      exact List.mem_cons_of_mem f hg
    · simpa [Ownership.take, hk] using hg
  have hexisting : ∀ k', ∀ g ∈ s.existing k', g ∈ (s.take k f rest).existing k' := by
    intro k' g hg
    by_cases hk : k' = k
    · subst hk
      simp only [existing, Ownership.take, h, Function.update_self, List.mem_append, List.mem_cons,
        List.not_mem_nil, or_false] at hg ⊢
      tauto
    · simpa [existing, Ownership.take, hk] using hg
  have hwaiting : ∀ k', ∀ g ∈ (s.take k f rest).waiting k', g ∈ s.waiting k' := by
    intro k' g hg
    rcases List.mem_append.1 hg with hpending | hbatch
    · exact List.mem_append_left _ hpending
    · exact List.mem_append_right _ (hfunctors k' g hbatch)
  refine ⟨fun c hc => hs.kept c ?_, fun k' g hg => hs.place k' g (hwaiting k' g hg),
    fun k' g hg => hs.served k' g (hwaiting k' g hg), hs.calls⟩
  obtain ⟨k', hpending | hbatch⟩ := hc
  · exact ⟨k', .inl hpending⟩
  · exact ⟨k', .inr (hbatch.mono (fun g hg _ => hfunctors k' g hg) fun g hg _ =>
      hexisting k' g hg)⟩

theorem Owned.execute {s t : Ownership n} (hs : s.Owned) {f : Functor} {w : WriteResult}
    (h : s.execute f w = some t) : t.Owned := by
  cases f with
  | connectEstablished c =>
    cases h
    exact hs.perform c _
  | connectDestroyed c =>
    cases h
    exact hs.connectDestroyed c
  | removeConnectionInLoop c =>
    cases h
    exact hs.unlist c
  | sendInLoop c m =>
    simp only [Ownership.execute] at h
    split_ifs at h
    cases h
    exact hs.perform c _
  | shutdownInLoop c =>
    cases h
    exact hs.perform c _
  | callback c f =>
    cases h
    exact hs

theorem Owned.setCall {s : Ownership n} (hs : s.Owned) {t : Tid} {call : ThreadCall}
    (h : ∀ c, call.conn = some c → (t, c) ∈ s.held) : (s.setCall t call).Owned := by
  refine ⟨hs.kept, hs.place, hs.served, fun t' c hc => ?_⟩
  by_cases ht : t' = t
  · subst ht
    simp only [Ownership.setCall, Function.update_self] at hc
    exact h c hc
  · simp only [Ownership.setCall, Function.update_of_ne ht] at hc
    exact hs.calls t' c hc

/-- A thread in a call queues a functor that is bound to the plain `this`. -/
theorem Owned.push {s : Ownership n} (hs : s.Owned) {t : Tid} {c : ConnId} {f : Functor}
    (hcall : (s.calls t).conn = some c) (hraw : f.raw = some c) :
    ((s.queueInLoop (s.ioLoop c) [f]).setCall t .outside).Owned := by
  have hqueued : (s.queueInLoop (s.ioLoop c) [f]).Owned := by
    refine hs.queueInLoop (fun g hg d hd => ?_) fun g hg hd => ?_
    · rw [List.mem_singleton.1 hg, hraw] at hd
      cases hd
      exact ⟨rfl, .inr (List.mem_map_of_mem (hs.calls t c hcall))⟩
    · rw [List.mem_singleton.1 hg, Functor.ofServer_of_raw hraw] at hd
      cases hd
  exact hqueued.setCall fun d hd => by cases hd

theorem Owned.swap {s : Ownership n} (hs : s.Owned) {k : Fin (n + 1)} (hidle : s.Idle k) :
    ({ s with
      pendingFunctors := Function.update s.pendingFunctors k []
      functors := Function.update s.functors k (s.pendingFunctors k) } : Ownership n).Owned := by
  obtain ⟨-, hfunctors, hcalled⟩ := hidle
  have hwaiting : ∀ k', ({ s with
      pendingFunctors := Function.update s.pendingFunctors k []
      functors := Function.update s.functors k (s.pendingFunctors k) } : Ownership n).waiting k' =
        s.waiting k' := by
    intro k'
    by_cases hk : k' = k
    · subst hk
      simp [waiting, hfunctors]
    · simp [waiting, hk]
  refine ⟨fun c hc => hs.kept c ?_, fun k' g hg => hs.place k' g (hwaiting k' ▸ hg),
    fun k' g hg => hs.served k' g (hwaiting k' ▸ hg), hs.calls⟩
  obtain ⟨k', hbare⟩ := hc
  by_cases hk : k' = k
  · subst hk
    simp only [existing, hcalled, Function.update_self, List.nil_append, List.append_nil] at hbare
    rcases hbare with ⟨⟨f, hf, -⟩, -⟩ | hbatch
    · exact absurd hf List.not_mem_nil
    · exact ⟨k', .inl hbatch⟩
  · simp only [existing, Function.update_of_ne hk] at hbare
    exact ⟨k', hbare⟩

theorem Owned.endFunctors {s : Ownership n} (hs : s.Owned) {k : Fin (n + 1)}
    (hfunctors : s.functors k = []) :
    ({ s with called := Function.update s.called k [] } : Ownership n).Owned := by
  refine ⟨fun c hc => hs.kept c ?_, hs.place, hs.served, hs.calls⟩
  obtain ⟨k', hpending | hbatch⟩ := hc
  · exact ⟨k', .inl hpending⟩
  · by_cases hk : k' = k
    · obtain ⟨⟨f, hf, -⟩, -⟩ := hbatch
      rw [show s.functors k' = [] from hk ▸ hfunctors] at hf
      exact absurd hf List.not_mem_nil
    · simp only [existing, Function.update_of_ne hk] at hbatch
      exact ⟨k', .inr hbatch⟩

/-! ### Runs -/

/-- A functor that is called, in the batch or as `closeCallback_`, has its target. -/
def Safe (s : Ownership n) : Label n → Prop
  | .runFunctor k _ => ∀ f ∈ (s.functors k).head?, s.TargetAlive f
  | .handleClose _ => s.server = .alive
  | _ => True

/-- The owners let go in time: a thread does not release the last pointer to a connection that has
left `connections_` while an exposed functor waits, and neither does `~TcpServer` when it destroys
the connection at once; nothing that is bound to the server comes after `~TcpServer`. -/
def Careful (s : Ownership n) : Label n → Prop
  | .release t c =>
    s.Exposed c → c ∈ s.connections ∨ c ∈ (s.held.erase (t, c)).map Prod.snd
  | .destroyNext c =>
    s.server = .destroying (some (s.ioLoop c)) → s.Exposed c → c ∈ s.held.map Prod.snd
  | .destroyServer _ => ∀ k, ∀ f ∈ s.waiting k, f.ofServer = false
  | .handleClose _ => s.server = .alive
  | _ => True

theorem Owned.release {s : Ownership n} (hs : s.Owned) {t : Tid} {c : ConnId}
    (hcall : s.calls t = .outside)
    (hl : s.Exposed c → c ∈ s.connections ∨ c ∈ (s.held.erase (t, c)).map Prod.snd) :
    ({ s with held := s.held.erase (t, c) } : Ownership n).Owned := by
  refine ⟨fun d hd => ?_, hs.place, hs.served, fun t' d hd => ?_⟩
  · by_cases hne : d = c
    · subst hne
      exact hl hd
    · refine (hs.kept d hd).imp_right fun hheld => ?_
      obtain ⟨⟨t', d'⟩, hmem, rfl⟩ := List.mem_map.1 hheld
      have hother : (t', d') ≠ (t, c) := fun h => hne (congrArg Prod.snd h)
      exact List.mem_map.2 ⟨(t', d'), (List.mem_erase_of_ne hother).2 hmem, rfl⟩
  · have hother : (t', d) ≠ (t, c) := by
      intro h
      cases h
      rw [show ({ s with held := s.held.erase (t, c) } : Ownership n).calls t = .outside from hcall]
        at hd
      cases hd
    exact (List.mem_erase_of_ne hother).2 (hs.calls t' d hd)

theorem Owned.destroyNext {s : Ownership n} (hs : s.Owned) {thread : Option (Fin (n + 1))}
    {c : ConnId}
    (hl : thread = some (s.ioLoop c) → s.Exposed c → c ∈ s.held.map Prod.snd) :
    (s.destroyNext thread c).Owned := by
  unfold Ownership.destroyNext
  simp only
  split_ifs with hthread
  · have herased : ({ s with connections := s.connections.erase c } : Ownership n).Owned := by
      refine ⟨fun d hd => ?_, hs.place, hs.served, hs.calls⟩
      by_cases hne : d = c
      · subst hne
        exact .inr (hl hthread hd)
      · exact (hs.kept d hd).imp_left (List.mem_erase_of_ne hne).2
    exact herased.connectDestroyed c
  · exact hs.unlist c

theorem owned_step (s : Ownership n) (l : Label n) (t : Ownership n) (hs : s.Owned)
    (hl : Careful s l) (h : step s l = some t) : t.Owned := by
  unfold step at h
  by_cases hstopped : s.stopped = true
  · rw [if_pos hstopped] at h
    cases h
  rw [if_neg hstopped] at h
  cases l with
  | newConnection writeComplete highWater mark =>
    simp only at h
    split_ifs at h
    cases h
    exact hs.newConnection _
  | swap k =>
    simp only at h
    split_ifs at h with hidle
    cases h
    exact hs.swap hidle
  | runFunctor k w =>
    simp only at h
    split at h
    · rename_i f rest hfunctors
      split_ifs at h
      · exact (hs.take hfunctors).execute h
      · cases h
        exact ⟨hs.kept, hs.place, hs.served, hs.calls⟩
    · cases h
  | endFunctors k =>
    simp only at h
    split_ifs at h with hc
    cases h
    exact hs.endFunctors hc.2
  | handleClose c =>
    simp only at h
    split_ifs at h
    cases h
    exact hs.handleClose c
  | handleWrite c heap w =>
    simp only at h
    split_ifs at h
    cases h
    exact hs.perform c _
  | sendHere c m w =>
    simp only at h
    split_ifs at h
    cases h
    exact hs.perform c _
  | shutdownHere c =>
    simp only at h
    split_ifs at h
    cases h
    exact hs.perform c _
  | acquire th c =>
    simp only at h
    split_ifs at h
    cases h
    refine ⟨fun d hd => (hs.kept d hd).imp_right ?_, hs.place, hs.served, fun th' d hd => ?_⟩
    · exact List.mem_cons_of_mem c
    · exact List.mem_cons_of_mem (th, c) (hs.calls th' d hd)
  | release th c =>
    simp only at h
    split_ifs at h with hc
    cases h
    exact hs.release hc.2 hl
  | sendTest th c m =>
    simp only at h
    split_ifs at h with hc
    · cases h
      refine hs.setCall fun d hd => ?_
      cases hd
      exact hc.1
    · cases h
      exact hs
  | sendPush th =>
    simp only at h
    split at h
    · rename_i c m hcall
      cases h
      exact hs.push (c := c) (by rw [hcall]; rfl) rfl
    · cases h
  | shutdownTest th c =>
    simp only at h
    split_ifs at h with hc
    · cases h
      refine hs.setCall fun d hd => ?_
      cases hd
      exact hc.1
    · cases h
      exact hs
  | shutdownStore th =>
    simp only at h
    split at h
    · rename_i c hcall
      cases h
      have hheld : (th, c) ∈ s.held := hs.calls th c (by rw [hcall]; rfl)
      have hstored : ({ s with
          tcp := Function.update s.tcp c ((s.tcp c).setState .kDisconnecting) } :
            Ownership n).Owned := ⟨hs.kept, hs.place, hs.served, hs.calls⟩
      refine hstored.setCall fun d hd => ?_
      cases hd
      exact hheld
    · cases h
  | shutdownPush th =>
    simp only at h
    split at h
    · rename_i c hcall
      cases h
      exact hs.push (c := c) (by rw [hcall]; rfl) rfl
    · cases h
  | destroyServer thread =>
    simp only at h
    split_ifs at h
    cases h
    exact ⟨hs.kept, hs.place, fun k f hf hc => absurd hc (by simp [hl k f hf]), hs.calls⟩
  | destroyNext c =>
    simp only at h
    split at h
    · rename_i thread hserver
      split_ifs at h
      cases h
      exact hs.destroyNext fun hthread => hl (by rw [hserver, hthread])
    · cases h
  | destroyEnd =>
    simp only at h
    split at h
    · rename_i thread hserver
      split_ifs at h
      cases h
      refine ⟨hs.kept, hs.place, fun k f hf hc => ?_, hs.calls⟩
      have halive := hs.served k f hf hc
      rw [hserver] at halive
      cases halive
    · cases h

/-- **No functor outlives its target** in a run in which the owners let go in time. -/
theorem functors_outlived {ioLoop : ConnId → Fin (n + 1)} {ls : List (Label n)}
    (hls : Along step Careful (new ioLoop) ls) : Along step Safe (new ioLoop) ls := by
  refine along_mono owned_step (fun s l hs hl => ?_) (owned_new ioLoop) hls
  cases l with
  | runFunctor k w => exact fun f hf => hs.targetAlive (List.mem_of_mem_head? hf)
  | handleClose c => exact hl
  | _ => trivial

instance (s : Ownership n) (l : Label n) : Decidable (Careful s l) := by
  cases l <;> unfold Careful <;> infer_instance

/-- Thread 7 loads `kConnected`; the peer closes and the server removes the connection; only then,
with `connectDestroyed` being called, the thread queues its `sendInLoop`. -/
def lateSend : List (Label 1) :=
  [.newConnection false false (64 * 1024 * 1024), .swap 1, .runFunctor 1 (.accepted 0),
    .endFunctors 1, .acquire 7 0, .sendTest 7 0 [97], .handleClose 0, .swap 0,
    .runFunctor 0 (.accepted 0), .endFunctors 0, .swap 1, .sendPush 7, .runFunctor 1 (.accepted 0)]

/-- The thread keeps its pointer until the functor was called. -/
theorem functors_outlived_lateSend :
    ∃ s, run step (new fun _ => (1 : Fin 2)) (lateSend ++ [.endFunctors 1, .swap 1,
        .runFunctor 1 (.accepted 0), .release 7 0, .endFunctors 1]) = some s ∧
      s.refCount 0 = 0 ∧
      Along step Safe (new fun _ => (1 : Fin 2)) (lateSend ++ [.endFunctors 1, .swap 1,
        .runFunctor 1 (.accepted 0), .release 7 0, .endFunctors 1]) :=
  ⟨_, rfl, rfl, functors_outlived (by decide +kernel)⟩

/-- The thread releases it before, and `sendInLoop` is called for a destroyed connection.  Also,
the server may be destroyed while `removeConnectionInLoop` waits. -/
theorem functor_outlives_target :
    (∃ s, run step (new fun _ => (1 : Fin 2))
        (lateSend ++ [.release 7 0, .endFunctors 1, .swap 1]) = some s ∧
      s.functors 1 = [.sendInLoop 0 [97]] ∧ s.refCount 0 = 0 ∧
      ¬ Safe s (.runFunctor 1 (.accepted 0))) ∧
    ∃ s, run step (new fun _ => (1 : Fin 2)) [.newConnection false false (64 * 1024 * 1024),
        .swap 1, .runFunctor 1 (.accepted 0), .endFunctors 1, .handleClose 0,
        .destroyServer (some 0), .destroyNext 0, .destroyEnd, .swap 0] = some s ∧
      s.functors 0 = [.removeConnectionInLoop 0] ∧ s.server = .destroyed ∧
      ¬ Safe s (.runFunctor 0 (.accepted 0)) := by
  refine ⟨⟨_, rfl, rfl, rfl, fun h => ?_⟩, ⟨_, rfl, rfl, rfl, fun h => ?_⟩⟩
  · exact absurd (h _ rfl) (by decide +kernel)
  · exact absurd (h _ rfl).1 (by decide +kernel)

end Ownership

end TinyNetwork
