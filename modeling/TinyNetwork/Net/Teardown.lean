import TinyNetwork.Net.Dispatch

/-!
# The end of a connection

Two questions about every run of a connection: does `state_` only move forward, and does
`connectDestroyed` leave the connection clean?  The answer to both is no, and each for one reason.

* `shutdown()` tests `state_` and stores `kDisconnecting` in a second step.  When the loop thread
  closes the connection in between, `kDisconnected` is overwritten (`state_forward_iff`).
* `connectDestroyed` does its work only in state `kConnected`.  In `kDisconnecting` it goes straight
  to `Channel::remove`, with the events of the channel still enabled
  (`connectDestroyed_clean_iff`).

`Sound` is what holds in all runs: the poller's bookkeeping is right, `connectEstablished` comes
first, and a connection in state `kDisconnected` has no events left and has told the user.
-/

namespace TinyNetwork

namespace TcpConnection

/-- The order `kConnecting < kConnected < kDisconnecting < kDisconnected`. -/
def StateE.rank : StateE → ℕ
  | kConnecting => 0
  | kConnected => 1
  | kDisconnecting => 2
  | kDisconnected => 3

end TcpConnection

namespace Dispatch

open Lts
open TcpConnection (Effect Steady)

/-- The user got the down notification. -/
def Down (s : Dispatch) : Prop := .effect (.connectionCallback false) ∈ s.trace

/-- `connectEstablished` has not run yet. -/
structure Young (s : Dispatch) : Prop where
  reg : s.reg.WellFormed
  tasks : ∃ rest, s.tasks = .connectEstablished :: rest ∧ .connectEstablished ∉ rest
  state : s.conn.state = .kConnecting
  interest : s.reg.interest = none
  handlers : s.handlers = []
  calls : ∀ t, s.calls t = .outside
  destroying : s.destroying = false
  removing : s.removing = 0

/-- `connectEstablished` has run. -/
structure Mature (s : Dispatch) : Prop where
  reg : s.reg.WellFormed
  tasks : .connectEstablished ∉ s.tasks
  state : s.conn.state ≠ .kConnecting
  closed : s.conn.state = .kDisconnected → s.conn.channel.isNoneEvent = true ∧ s.Down

def Sound (s : Dispatch) : Prop := s.Young ∨ s.Mature

theorem sound_accepted (writeComplete highWater : Bool) (mark : ℕ) :
    (accepted writeComplete highWater mark).Sound :=
  .inl ⟨Registration.wellFormed_new, ⟨[], rfl, by simp⟩, rfl, rfl, rfl, fun _ => rfl, rfl, rfl⟩

/-! ### Each member function keeps a mature connection sound -/

/-- A step that touches neither the connection nor the poller nor the trace. -/
theorem Mature.same {s t : Dispatch} (hs : s.Mature) (htasks : .connectEstablished ∉ t.tasks)
    (hconn : t.conn = s.conn) (hreg : t.reg = s.reg) (htrace : t.trace = s.trace) : t.Mature := by
  refine ⟨hreg ▸ hs.reg, htasks, hconn ▸ hs.state, ?_⟩
  rw [hconn, Down, htrace]
  exact hs.closed

theorem mature_perform {s : Dispatch} (hreg : s.reg.WellFormed)
    (htasks : .connectEstablished ∉ s.tasks) {r : TcpConnection × List Effect}
    (hstate : r.1.state ≠ .kConnecting)
    (hclosed : r.1.state = .kDisconnected → r.1.channel.isNoneEvent = true ∧
      (s.Down ∨ .connectionCallback false ∈ r.2)) : (s.perform r).Mature := by
  obtain ⟨reg, -, hwf, hperform⟩ := perform_eq hreg r
  rw [hperform]
  refine ⟨hwf, ?_, hstate, fun h => ⟨(hclosed h).1, ?_⟩⟩
  · rw [List.mem_append, not_or]
    exact ⟨htasks, connectEstablished_notMem_queued r.2⟩
  · rcases (hclosed h).2 with hdown | hdown
    · exact List.mem_append_left _ hdown
    · exact List.mem_append_right _ (List.mem_map_of_mem hdown)

theorem Mature.perform {s : Dispatch} (hs : s.Mature) {r : TcpConnection × List Effect}
    (hstate : r.1.state ≠ .kConnecting)
    (hclosed : r.1.state = .kDisconnected → r.1.channel.isNoneEvent = true ∧
      (s.Down ∨ .connectionCallback false ∈ r.2)) : (s.perform r).Mature :=
  mature_perform hs.reg hs.tasks hstate hclosed

theorem Mature.steady {s : Dispatch} (hs : s.Mature) {r : TcpConnection × List Effect}
    (hr : Steady s.conn r) : (s.perform r).Mature := by
  refine hs.perform (hr.state ▸ hs.state) fun hstate => ?_
  obtain ⟨hnone, hdown⟩ := hs.closed (hr.state ▸ hstate)
  rw [(hr.closed (hr.state ▸ hstate) hnone).1]
  exact ⟨hnone, .inl hdown⟩

theorem Mature.handleClose {s : Dispatch} (hs : s.Mature) :
    (s.perform s.conn.handleClose).Mature :=
  hs.perform (by simp [TcpConnection.handleClose]) fun _ =>
    ⟨rfl, .inr (by simp [TcpConnection.handleClose, TcpConnection.connected])⟩

theorem Mature.destroyConnected {s : Dispatch} (hs : s.Mature) :
    (s.perform s.conn.destroyConnected).Mature :=
  hs.perform (by simp [TcpConnection.destroyConnected]) fun _ =>
    ⟨rfl, .inr (by simp [TcpConnection.destroyConnected, TcpConnection.connected])⟩

theorem Mature.finishDestroyed {s : Dispatch} (hs : s.Mature) : s.finishDestroyed.Mature := by
  unfold Dispatch.finishDestroyed TcpConnection.removeChannel
  split_ifs
  · exact hs.perform hs.state fun h => ⟨(hs.closed h).1, .inl (hs.closed h).2⟩
  · exact hs.same hs.tasks rfl rfl rfl

theorem Mature.connectDestroyed {s : Dispatch} (hs : s.Mature) : s.connectDestroyed.Mature := by
  unfold Dispatch.connectDestroyed
  split_ifs
  · exact hs.same hs.tasks rfl rfl rfl
  · exact hs.finishDestroyed

theorem Mature.handleRead {s : Dispatch} (hs : s.Mature) (n : ℤ) : (s.handleRead n).Mature := by
  unfold Dispatch.handleRead
  split_ifs
  · refine ⟨hs.reg, hs.tasks, hs.state, fun h => ⟨(hs.closed h).1, ?_⟩⟩
    exact List.mem_append_left _ (hs.closed h).2
  · exact hs.handleClose
  · exact hs

theorem Mature.runTask {s t : Dispatch} (hs : s.Mature) {task : LoopTask} {w : WriteResult}
    (htask : task ≠ .connectEstablished) (h : s.runTask task w = some t) : t.Mature := by
  rcases runTask_cases h with ⟨hnew, -⟩ | ⟨r, hr, rfl⟩ | rfl | rfl
  · exact absurd hnew htask
  · exact hs.steady hr
  · exact hs
  · exact hs.connectDestroyed

/-- A mature connection is sound whatever else is queued on its loop. -/
theorem Mature.push {s : Dispatch} (hs : s.Mature) {task : LoopTask}
    (htask : task ≠ .connectEstablished) : LoopTask.connectEstablished ∉ s.tasks ++ [task] := by
  rw [List.mem_append, List.mem_singleton, not_or]
  exact ⟨hs.tasks, htask.symm⟩

theorem mature_step {s t : Dispatch} {l : Label} (hs : s.Mature) (h : StepTo s l t) :
    t.Mature := by
  have hpopped : ∀ rest, ({ s with handlers := rest } : Dispatch).Mature := fun rest =>
    hs.same hs.tasks rfl rfl rfl
  cases h with
  | poll | handleError | sendTest | shutdownTest | serverGone => exact hs.same hs.tasks rfl rfl rfl
  | sendRefused | shutdownRefused => exact hs
  | handleClose rest => exact (hpopped rest).handleClose
  | handleRead n rest => exact (hpopped rest).handleRead n
  | handleWrite heap w rest =>
    exact (hpopped rest).steady (TcpConnection.steady_handleWrite s.conn heap w)
  | runFunctor w task rest _ _ _ htasks hrun =>
    have hnew := hs.tasks
    rw [htasks, List.mem_cons, not_or] at hnew
    have hrest : ({ s with tasks := rest } : Dispatch).Mature := hs.same hnew.2 rfl rfl rfl
    exact hrest.runTask (Ne.symm hnew.1) hrun
  | destroyStore =>
    have hstored : ({ s with destroying := false } : Dispatch).Mature :=
      hs.same hs.tasks rfl rfl rfl
    exact hstored.destroyConnected.finishDestroyed
  | sendRun m w =>
    have hsent := hs.steady (TcpConnection.steady_sendInLoop s.conn m w)
    exact hsent.same hsent.tasks rfl rfl rfl
  | shutdownRun =>
    have hshut := hs.steady (TcpConnection.steady_shutdownInLoop s.conn)
    exact hshut.same hshut.tasks rfl rfl rfl
  | shutdownStore th => exact ⟨hs.reg, hs.tasks, by simp [setCall], by simp [setCall]⟩
  | sendPush | shutdownPush | removeConnectionInLoop | serverPush =>
    exact hs.same (hs.push (by simp)) rfl rfl rfl
  | serverRun =>
    have hgone : ({ s with serverAlive := false, inConnections := false } : Dispatch).Mature :=
      hs.same hs.tasks rfl rfl rfl
    exact hgone.connectDestroyed

/-- Before `connectEstablished` nothing else can happen to the connection, save that the server
goes away. -/
theorem young_step {s t : Dispatch} {l : Label} (hs : s.Young) (h : StepTo s l t) : t.Sound := by
  cases h with
  | poll _ _ _ hreg => simp [hs.interest] at hreg
  | handleClose rest _ hhandlers => simp [hs.handlers] at hhandlers
  | handleError rest _ hhandlers => simp [hs.handlers] at hhandlers
  | handleRead n rest _ hhandlers => simp [hs.handlers] at hhandlers
  | handleWrite heap w rest _ hhandlers => simp [hs.handlers] at hhandlers
  | runFunctor w task rest _ _ _ htasks hrun =>
    obtain ⟨rest', htasks', hnew⟩ := hs.tasks
    rw [htasks] at htasks'
    cases htasks'
    cases hrun
    refine .inr (mature_perform (s := { s with tasks := rest }) hs.reg hnew ?_ ?_) <;>
      simp [TcpConnection.connectEstablished]
  | destroyStore hdestroying => simp [hs.destroying] at hdestroying
  | sendTest th m _ hstate => simp [hs.state] at hstate
  | shutdownTest th _ hstate => simp [hs.state] at hstate
  | sendRefused | shutdownRefused => exact .inl hs
  | sendRun m w hcall => simp [hs.calls] at hcall
  | sendPush th m hcall => simp [hs.calls] at hcall
  | shutdownStore th hcall => simp [hs.calls] at hcall
  | shutdownRun hcall => simp [hs.calls] at hcall
  | shutdownPush th hcall => simp [hs.calls] at hcall
  | removeConnectionInLoop hremoving => simp [hs.removing] at hremoving
  | serverGone =>
    exact .inl ⟨hs.reg, hs.tasks, hs.state, hs.interest, hs.handlers, hs.calls, hs.destroying,
      hs.removing⟩
  | serverPush =>
    obtain ⟨rest, htasks, hnew⟩ := hs.tasks
    refine .inl ⟨hs.reg, ⟨rest ++ [.connectDestroyed], ?_, ?_⟩, hs.state, hs.interest, hs.handlers,
      hs.calls, hs.destroying, hs.removing⟩
    · rw [htasks, List.cons_append]
    · simpa using hnew
  | serverRun _ _ hyoung =>
    obtain ⟨rest, htasks, -⟩ := hs.tasks
    simp [htasks] at hyoung

theorem sound_step (s : Dispatch) (l : Label) (t : Dispatch) (hs : s.Sound)
    (h : step s l = some t) : t.Sound := by
  have hto := (stepTo_of_step h).2
  rcases hs with hyoung | hmature
  · exact young_step hyoung hto
  · exact .inr (mature_step hmature hto)

/-! ### `state_` and its order -/

/-- What a step does to the connection: it writes, or sets `kDisconnected` and drops all events, or
is the store of `shutdown()`, or is `connectEstablished`. -/
def ConnStep (s : Dispatch) (l : Label) (t : Dispatch) : Prop :=
  (∃ r, Steady s.conn r ∧ t.conn = r.1) ∨
  (t.conn.state = .kDisconnected ∧ t.conn.channel.isNoneEvent = true) ∨
  (∃ thread, l = .shutdownStore thread ∧ t.conn = s.conn.setState .kDisconnecting) ∨
  (s.conn.state = .kConnecting ∧ t.conn.state = .kConnected)

theorem connStep_same {s t : Dispatch} {l : Label} (h : t.conn = s.conn) : ConnStep s l t :=
  .inl ⟨(s.conn, []), ⟨rfl, rfl, by simp, by simp, fun _ _ => ⟨rfl, by simp⟩⟩, h⟩

theorem connStep_steady {s t : Dispatch} {l : Label} (hreg : t.reg.WellFormed)
    {r : TcpConnection × List Effect} (hr : Steady s.conn r) : ConnStep s l (t.perform r) :=
  .inl ⟨r, hr, perform_conn hreg r⟩

theorem connStep_of_step {s t : Dispatch} {l : Label} (hs : s.Sound) (h : StepTo s l t) :
    ConnStep s l t := by
  have hreg : s.reg.WellFormed := hs.elim Young.reg Mature.reg
  have hclose : ∀ rest,
      ConnStep s l (({ s with handlers := rest } : Dispatch).perform s.conn.handleClose) := by
    intro rest
    refine .inr (.inl ?_)
    rw [perform_conn (s := { s with handlers := rest }) hreg]
    exact ⟨rfl, rfl⟩
  cases h with
  | poll | handleError | sendTest | sendRefused | shutdownTest | shutdownRefused | sendPush
  | shutdownPush | removeConnectionInLoop | serverGone | serverPush => exact connStep_same rfl
  | handleClose rest => exact hclose rest
  | handleRead n rest =>
    unfold Dispatch.handleRead
    split_ifs
    · exact connStep_same rfl
    · exact hclose rest
    · exact connStep_same rfl
  | handleWrite heap w =>
    exact connStep_steady (by exact hreg) (TcpConnection.steady_handleWrite s.conn heap w)
  | runFunctor w task rest _ _ _ htasks hrun =>
    rcases runTask_cases hrun with ⟨rfl, rfl⟩ | ⟨r, hr, rfl⟩ | rfl | rfl
    · have hconnecting : s.conn.state = .kConnecting := by
        rcases hs with hyoung | hmature
        · exact hyoung.state
        · exact absurd List.mem_cons_self (htasks ▸ hmature.tasks)
      refine .inr (.inr (.inr ⟨hconnecting, ?_⟩))
      rw [perform_conn (s := { s with tasks := rest }) hreg]
      rfl
    · exact connStep_steady (by exact hreg) hr
    · exact connStep_same rfl
    · exact connStep_same (connectDestroyed_conn _)
  | destroyStore =>
    refine .inr (.inl ?_)
    rw [finishDestroyed_conn, perform_conn (s := { s with destroying := false }) hreg]
    exact ⟨rfl, rfl⟩
  | sendRun m w => exact connStep_steady (by exact hreg) (TcpConnection.steady_sendInLoop s.conn m w)
  | shutdownStore th => exact .inr (.inr (.inl ⟨th, rfl, rfl⟩))
  | shutdownRun => exact connStep_steady (by exact hreg) (TcpConnection.steady_shutdownInLoop s.conn)
  | serverRun => exact connStep_same (connectDestroyed_conn _)

/-- `state_` does not move backwards; `kDisconnected` is kept, and writing is not enabled in it. -/
def Forward (s t : Dispatch) : Prop :=
  s.conn.state.rank ≤ t.conn.state.rank ∧
    (s.conn.state = .kDisconnected → t.conn.state = .kDisconnected ∧
      (t.conn.channel.isWriting = true → s.conn.channel.isWriting = true))

/-- The store of `shutdown()` does not come after `kDisconnected`. -/
def StoresInTime (s : Dispatch) (l : Label) : Prop :=
  ∀ thread, l = .shutdownStore thread → s.conn.state ≠ .kDisconnected

theorem rank_le_kDisconnected (state : TcpConnection.StateE) :
    state.rank ≤ TcpConnection.StateE.kDisconnected.rank := by
  cases state <;> decide

theorem rank_kDisconnecting_iff {state : TcpConnection.StateE} :
    state.rank ≤ TcpConnection.StateE.kDisconnecting.rank ↔ state ≠ .kDisconnected := by
  cases state <;> decide

/-- A step goes forward exactly when it is not a late store of `shutdown()`. -/
theorem forward_iff {s t : Dispatch} {l : Label} (hs : s.Sound) (h : step s l = some t) :
    Forward s t ↔ StoresInTime s l := by
  have hto := (stepTo_of_step h).2
  constructor
  · rintro ⟨hrank, -⟩ thread rfl
    cases hto
    exact rank_kDisconnecting_iff.1 hrank
  · intro hl
    rcases connStep_of_step hs hto with ⟨r, hr, hconn⟩ | ⟨hstate, hnone⟩ | ⟨thread, rfl, hconn⟩ |
      ⟨hfrom, hto⟩
    · refine ⟨by rw [hconn, hr.state], fun hstate => ⟨by rw [hconn, hr.state, hstate], ?_⟩⟩
      have hmature : s.Mature := hs.resolve_left fun hyoung => by simp [hyoung.state] at hstate
      rw [hconn, (hr.closed hstate (hmature.closed hstate).1).1]
      exact id
    · refine ⟨hstate ▸ rank_le_kDisconnected _, fun _ => ⟨hstate, fun hw => ?_⟩⟩
      simp only [Channel.isWriting] at hw
      simp [Channel.isNoneEvent, hw] at hnone
    · have hin := hl thread rfl
      refine ⟨?_, fun hstate => absurd hstate hin⟩
      rw [hconn]
      exact rank_kDisconnecting_iff.2 hin
    · refine ⟨?_, fun hstate => by simp [hfrom] at hstate⟩
      rw [hfrom, hto]
      decide

/-- **`state_` never moves backwards** in a run exactly when no `shutdown()` that found
`kConnected` makes its store after the connection was closed. -/
theorem state_forward_iff (writeComplete highWater : Bool) (mark : ℕ) (ls : List Label) :
    Along step (fun s l => ∀ t, step s l = some t → Forward s t)
        (accepted writeComplete highWater mark) ls ↔
      Along step (fun s l => ∀ t, step s l = some t → StoresInTime s l)
        (accepted writeComplete highWater mark) ls := by
  refine along_congr sound_step (fun s l hs => ?_) (sound_accepted writeComplete highWater mark) ls
  exact forall₂_congr fun t h => forward_iff hs h

/-- A thread tests `state_`, the loop thread closes the connection, the thread stores
`kDisconnecting`; a message sent before is then buffered and writing enabled again. -/
theorem shutdown_overwrites_kDisconnected :
    ∃ s t u, run step (accepted false false (64 * 1024 * 1024))
        [.runFunctor (.accepted 0), .sendTest (some 1) [97], .sendPush 1, .shutdownTest (some 1),
          .poll { EPOLLIN := true }, .handleRead 0] = some s ∧
      step s (.shutdownStore (some 1)) = some t ∧
      step t (.runFunctor (.error EWOULDBLOCK)) = some u ∧
      ¬ Forward s t ∧ s.conn.state = .kDisconnected ∧ t.conn.state = .kDisconnecting ∧
      s.conn.channel.isWriting = false ∧ u.conn.channel.isWriting = true := by
  refine ⟨_, _, _, rfl, rfl, rfl, ?_, rfl, rfl, rfl, rfl⟩
  rintro ⟨hrank, -⟩
  exact absurd hrank (by decide)

/-! ### What `connectDestroyed` leaves behind -/

/-- The step in which `connectDestroyed` loads `state_`. -/
def StartsDestroyed (s : Dispatch) (l : Label) : Prop :=
  (∃ w, l = .runFunctor w ∧ s.tasks.head? = some .connectDestroyed) ∨
    (l = .destroyServer true ∧ s.inConnections = true)

/-- The step in which it returns. -/
def EndsDestroyed (s : Dispatch) (l : Label) : Prop :=
  l = .destroyStore ∨ (StartsDestroyed s l ∧ s.conn.state ≠ .kConnected)

/-- No assertion failed, the connection is closed, the poller has forgotten the descriptor and the
user was told. -/
structure Clean (s : Dispatch) : Prop where
  asserted : s.aborted = false
  state : s.conn.state = .kDisconnected
  inChannels : s.reg.inChannels = false
  interest : s.reg.interest = none
  down : s.Down

theorem clean_finishDestroyed_iff {s : Dispatch} (hs : s.Mature) (hlive : s.aborted = false) :
    Clean s.finishDestroyed ↔ s.conn.state = .kDisconnected := by
  constructor
  · intro h
    rw [← finishDestroyed_conn s]
    exact h.state
  · intro hstate
    obtain ⟨hnone, hdown⟩ := hs.closed hstate
    have hregister : register s.reg [.removeChannel] =
        some { s.reg with index := .kNew, inChannels := false, interest := none } := by
      rw [register, register, hs.reg.removeChannel]
    unfold finishDestroyed TcpConnection.removeChannel perform
    simp only [hnone, if_true, hregister]
    exact ⟨hlive, hstate, rfl, rfl, List.mem_append_left _ hdown⟩

theorem aborted_perform {s : Dispatch} (hr : s.reg.WellFormed)
    (r : TcpConnection × List Effect) : (s.perform r).aborted = s.aborted := by
  obtain ⟨reg, -, -, hperform⟩ := perform_eq hr r
  rw [hperform]

/-- `connectDestroyed` is only run after `connectEstablished`. -/
theorem StartsDestroyed.step {s t : Dispatch} {l : Label} (hs : s.Sound)
    (hstart : StartsDestroyed s l) (h : StepTo s l t) :
    ∃ u : Dispatch, t = u.connectDestroyed ∧ u.Mature ∧ u.conn = s.conn ∧
      u.aborted = s.aborted := by
  rcases hstart with ⟨w, rfl, hhead⟩ | ⟨rfl, hin⟩
  · cases h with
    | runFunctor _ task rest _ _ _ htasks hrun =>
      rw [htasks, List.head?_cons, Option.some_inj] at hhead
      subst hhead
      cases hrun
      refine ⟨{ s with tasks := rest }, rfl, ?_, rfl, rfl⟩
      rcases hs with hyoung | hmature
      · obtain ⟨rest', htasks', -⟩ := hyoung.tasks
        simp [htasks] at htasks'
      · have hrest := hmature.tasks
        rw [htasks, List.mem_cons, not_or] at hrest
        exact hmature.same hrest.2 rfl rfl rfl
  · cases h with
    | serverGone _ hgone => simp [hin] at hgone
    | serverRun _ _ hestablished =>
      refine ⟨_, rfl, ?_, rfl, rfl⟩
      rcases hs with hyoung | hmature
      · obtain ⟨rest, htasks, -⟩ := hyoung.tasks
        simp [htasks] at hestablished
      · exact hmature.same hmature.tasks rfl rfl rfl

/-- A step that ends `connectDestroyed` leaves the connection clean exactly when the state loaded
was not `kDisconnecting`. -/
theorem clean_iff {s t : Dispatch} {l : Label} (hs : s.Sound) (h : step s l = some t) :
    (EndsDestroyed s l → Clean t) ↔
      (StartsDestroyed s l → s.conn.state ≠ .kDisconnecting) := by
  obtain ⟨hlive, hto⟩ := stepTo_of_step h
  rw [Bool.not_eq_true] at hlive
  constructor
  · intro hclean hstart hstate
    obtain ⟨u, rfl, -, hconn, -⟩ := hstart.step hs hto
    have hdisconnected := (hclean (.inr ⟨hstart, by simp [hstate]⟩)).state
    rw [connectDestroyed_conn, hconn, hstate] at hdisconnected
    cases hdisconnected
  · rintro hload (rfl | ⟨hstart, hnot⟩)
    · cases hto with
      | destroyStore hdestroying =>
        have hmature : s.Mature := hs.resolve_left fun hyoung => by
          simp [hyoung.destroying] at hdestroying
        have hstored : ({ s with destroying := false } : Dispatch).Mature :=
          hmature.same hmature.tasks rfl rfl rfl
        rw [clean_finishDestroyed_iff hstored.destroyConnected, perform_conn hstored.reg]
        · rfl
        · rw [aborted_perform hstored.reg]
          exact hlive
    · obtain ⟨u, rfl, hu, hconn, hsame⟩ := hstart.step hs hto
      rw [connectDestroyed, if_neg (by rwa [hconn]),
        clean_finishDestroyed_iff hu (hsame.trans hlive), hconn]
      have hdisconnecting := hload hstart
      have hconnecting := hconn ▸ hu.state
      cases hstate : s.conn.state with
      | kConnecting => exact absurd hstate hconnecting
      | kConnected => exact absurd hstate hnot
      | kDisconnecting => exact absurd hstate hdisconnecting
      | kDisconnected => rfl

/-- **`connectDestroyed` leaves a clean connection**, each time it is run, exactly when it never
loads `kDisconnecting`. -/
theorem connectDestroyed_clean_iff (writeComplete highWater : Bool) (mark : ℕ) (ls : List Label) :
    Along step (fun s l => ∀ t, step s l = some t → EndsDestroyed s l → Clean t)
        (accepted writeComplete highWater mark) ls ↔
      Along step (fun s l => ∀ t, step s l = some t → StartsDestroyed s l →
        s.conn.state ≠ .kDisconnecting) (accepted writeComplete highWater mark) ls := by
  refine along_congr sound_step (fun s l hs => ?_) (sound_accepted writeComplete highWater mark) ls
  exact forall₂_congr fun t h => clean_iff hs h

/-- The user calls `shutdown()` and then the server is destroyed: the assertion fails, with the
read events still registered and no down notification. -/
theorem connectDestroyed_aborts_kDisconnecting :
    ∃ s t, run step (accepted false false (64 * 1024 * 1024))
        [.runFunctor (.accepted 0), .shutdownTest none, .shutdownStore none, .shutdownRun] =
          some s ∧
      step s (.destroyServer true) = some t ∧ EndsDestroyed s (.destroyServer true) ∧
      ¬ Clean t ∧ t.aborted = true ∧ t.conn.state = .kDisconnecting ∧
      t.reg.inChannels = true ∧ t.reg.interest = some { reading := true } ∧ ¬ t.Down := by
  refine ⟨_, _, rfl, rfl, .inr ⟨.inr ⟨rfl, rfl⟩, ?_⟩, ?_, rfl, rfl, rfl, rfl, ?_⟩
  · exact fun h => TcpConnection.StateE.noConfusion h
  · exact fun h => Bool.noConfusion h.asserted
  · show _ ∉ [_, _, _]
    decide

end Dispatch

end TinyNetwork
