import TinyNetwork.Net.TcpServer

/-!
# The connections of a `TcpServer`

A connection in a stage of its life owes the server one functor (`owed`): `connectEstablished`
while it is accepted only, `removeConnectionInLoop` once it is closed, `connectDestroyed` once it is
removed.  The invariant `Inv` says that exactly this functor is in flight, in the queue of the loop
where it belongs or in the hand of the thread that is about to run or queue it, and that the
history of the connection is a life up to that stage.

`connection_lifecycle`: the map holds the connections that are not removed yet, no entry is
overwritten, and every history is in the order of `Lifecycle.Ordered`.
-/

namespace TinyNetwork

open Lts Bytes
open Lifecycle (Stage Action Event Ordered)

namespace TcpServer

/-! ### Names -/

theorem toInt_ofNat {n : ℕ} (h : n < 2 ^ 31) : (BitVec.ofNat 32 n).toInt = n := by
  have hlt : n < 2 ^ 32 := by omega
  rw [BitVec.toInt_eq_toNat_of_lt (by rw [BitVec.toNat_ofNat, Nat.mod_eq_of_lt hlt]; omega),
    BitVec.toNat_ofNat, Nat.mod_eq_of_lt hlt]

/-- As long as the counter does not wrap, the name shows it in full. -/
theorem connNameOf_ofNat {name ipPort : Bytes} (hip : ipPort.length ≤ 21) {n : ℕ}
    (hn : n < 2 ^ 31) :
    connNameOf name ipPort (BitVec.ofNat 32 n) =
      name ++ (ascii "-" ++ ipPort ++ ascii "#" ++ decimal n) := by
  have hdigits : (decimal n).length ≤ 10 := length_decimal_le (by decide) (by omega)
  have hdash : (ascii "-").length = 1 := by decide
  have hhash : (ascii "#").length = 1 := by decide
  rw [connNameOf, toInt_ofNat hn, decimalInt_natCast, snprintf_of_lt]
  simp only [List.length_append, hdash, hhash]
  omega

theorem connNameOf_injective {name ipPort : Bytes} (hip : ipPort.length ≤ 21) {m n : ℕ}
    (hm : m < 2 ^ 31) (hn : n < 2 ^ 31)
    (h : connNameOf name ipPort (BitVec.ofNat 32 m) = connNameOf name ipPort (BitVec.ofNat 32 n)) :
    m = n := by
  rw [connNameOf_ofNat hip hm, connNameOf_ofNat hip hn] at h
  exact decimal_injective (List.append_cancel_left (List.append_cancel_left h))

/-! ### Functors in flight -/

/-- The connection a functor is about. -/
def Functor.conn : Functor → Option ConnId
  | .connectEstablished c => some c
  | .removeConnectionInLoop c => some c
  | .connectDestroyed c => some c
  | .other => none

/-- The functor that connection `c` owes, and the loop where it runs. -/
def owed (ioLoop : LoopId) (c : ConnId) : Stage → Option (LoopId × Functor)
  | .accepted => some (ioLoop, .connectEstablished c)
  | .established => none
  | .closed => some (baseLoop, .removeConnectionInLoop c)
  | .removed => some (ioLoop, .connectDestroyed c)
  | .destroyed => none

/-- How often `f` is in flight for loop `k`, counting the one in hand. -/
def flight (s : TcpServer) (hand : Option (LoopId × Functor)) (k : LoopId) (f : Functor) : ℕ :=
  (s.loops k).backlog.count f + if hand = some (k, f) then 1 else 0

/-- Connection `c` is in stage `stage` after the labels `ls`. -/
structure ConnInv (ls : List Label) (s : TcpServer) (hand : Option (LoopId × Functor)) (c : ConnId)
    (conn : Conn) (stage : Stage) : Prop where
  history : run (Lifecycle.step conn.loop) .accepted conn.history = some stage
  inFlight : ∀ k f, f.conn = some c →
    s.flight hand k f = if owed conn.loop c stage = some (k, f) then 1 else 0
  registered : conn.tcp.channel.isNoneEvent = false → stage = .established
  active : ∀ k, c ∈ s.activeChannels k → conn.loop = k ∧ stage ≠ .accepted ∧ stage ≠ .destroyed
  listed : s.connections conn.name = some c ↔ stage.listed
  closed : 1 < stage.rank → .handleClose c ∈ ls

/-- The invariant, with a functor in hand. -/
structure Inv (ls : List Label) (s : TcpServer) (hand : Option (LoopId × Functor)) : Prop where
  bound : ls.count .newConnection < 2 ^ 31
  accepted : s.conns.length = ls.count .newConnection
  ipPort : s.ipPort.length ≤ 21
  queues : ∀ k, (s.loops k).QueueInv
  idle : ∀ k, (s.loops k).phase ≠ .handling → s.activeChannels k = []
  connId : s.nextConnId = BitVec.ofNat 32 (s.conns.length + 1)
  names : ∀ c conn, s.conns[c]? = some conn →
    conn.name = connNameOf s.name s.ipPort (BitVec.ofNat 32 (c + 1))
  entries : ∀ nm c, s.connections nm = some c → ∃ conn, s.conns[c]? = some conn ∧ conn.name = nm
  conns : ∀ c conn, s.conns[c]? = some conn → ∃ stage, ConnInv ls s hand c conn stage
  known : ∀ k f (c : ℕ), f.conn = some c → 0 < s.flight hand k f → c < s.conns.length
  activeKnown : ∀ k (c : ℕ), c ∈ s.activeChannels k → c < s.conns.length

variable {ls : List Label} {s t : TcpServer} {hand hand' : Option (LoopId × Functor)}
  {c : ℕ} {conn conn' : Conn} {stage stage' : Stage} {k : LoopId} {f : Functor}

theorem lt_length (h : s.conns[c]? = some conn) : c < s.conns.length :=
  (List.getElem?_eq_some_iff.1 h).1

theorem inv_new (listenAddr : InetAddress) (nameArg : Bytes) (numThreads : ℕ) :
    Inv [] (new listenAddr nameArg numThreads) none where
  bound := by decide
  accepted := rfl
  ipPort := listenAddr.length_toIpPort
  queues _ := EventLoop.queueInv_new
  idle _ _ := rfl
  connId := rfl
  names c conn h := by simp [new] at h
  entries nm c h := by simp [new] at h
  conns c conn h := by simp [new] at h
  known k f c _ h := by simp [flight, new, EventLoop.new, EventLoop.backlog] at h
  activeKnown k c h := by simp [new] at h

theorem Inv.name_injective (hs : Inv ls s hand) {c' : ℕ} (hc : s.conns[c]? = some conn)
    (hc' : s.conns[c']? = some conn') (h : conn.name = conn'.name) : c = c' := by
  have hbound := hs.accepted ▸ hs.bound
  have hlt := lt_length hc
  have hlt' := lt_length hc'
  rw [hs.names c conn hc, hs.names c' conn' hc'] at h
  have heq := connNameOf_injective hs.ipPort (by omega) (by omega) h
  omega

/-- More labels that accept nothing change nothing. -/
theorem Inv.concat (hs : Inv ls s hand) {l : Label} (hl : l ≠ .newConnection) :
    Inv (ls ++ [l]) s hand := by
  have hcount : (ls ++ [l]).count .newConnection = ls.count .newConnection := by
    rw [List.count_append, List.count_singleton, if_neg (by simpa using hl), Nat.add_zero]
  refine { hs with bound := hcount ▸ hs.bound, accepted := hcount ▸ hs.accepted, conns := ?_ }
  intro c conn hc
  obtain ⟨stage, hst⟩ := hs.conns c conn hc
  exact ⟨stage, { hst with closed := fun h => List.mem_append_left _ (hst.closed h) }⟩

/-! ### The queues of the loops -/

theorem Functor.ne_other (h : f.conn = some c) : f ≠ .other := by
  rintro rfl
  cases h

/-- Loop `k` becomes `e`, and the functor in hand moves into its queue or out of it. -/
theorem Inv.withLoop (hs : Inv ls s hand) {e : EventLoop Functor} (hq : e.QueueInv)
    (hidle : e.phase ≠ .handling → s.activeChannels k = [])
    (hflight : ∀ f, f ≠ .other →
      e.backlog.count f + (if hand' = some (k, f) then 1 else 0) = s.flight hand k f)
    (hother : ∀ k' f, k' ≠ k → (hand' = some (k', f) ↔ hand = some (k', f))) :
    Inv ls { s with loops := Function.update s.loops k e } hand' := by
  have hsame : ∀ k' f, f ≠ .other →
      flight { s with loops := Function.update s.loops k e } hand' k' f = s.flight hand k' f := by
    intro k' f hf
    by_cases hk : k' = k
    · subst hk
      simp only [flight, Function.update_self]
      exact hflight f hf
    · simp only [flight, Function.update_of_ne hk, hother k' f hk]
  refine { hs with queues := ?_, idle := ?_, conns := ?_, known := ?_ }
  · intro k'
    by_cases hk : k' = k
    · subst hk
      simpa only [Function.update_self] using hq
    · simpa only [Function.update_of_ne hk] using hs.queues k'
  · intro k'
    by_cases hk : k' = k
    · subst hk
      simpa only [Function.update_self] using hidle
    · simpa only [Function.update_of_ne hk] using hs.idle k'
  · intro c conn hc
    obtain ⟨stage, hst⟩ := hs.conns c conn hc
    refine ⟨stage, { hst with inFlight := fun k' f hf => ?_ }⟩
    exact (hsame k' f (Functor.ne_other hf)).trans (hst.inFlight k' f hf)
  · intro k' f c hf hpos
    exact hs.known k' f c hf ((hsame k' f (Functor.ne_other hf)).symm ▸ hpos)

/-- The functor in hand goes into the queue. -/
theorem Inv.queueInLoop (hs : Inv ls s (some (k, f))) (thread : LoopId) :
    Inv ls (s.queueInLoop thread k f) none := by
  have hp : EventLoop.Pushed (s.loops k)
      (if thread = k then (s.loops k).queueInLoop f
      else { (s.loops k).push f with
        callers := Function.update (s.loops k).callers thread .waking }) f := by
    split_ifs
    · exact EventLoop.queueInLoop_pushed _ f
    · exact ⟨rfl, rfl, rfl, rfl, rfl, rfl⟩
  refine hs.withLoop (EventLoop.queueInv_pushed (hs.queues k) hp) ?_ ?_ ?_
  · rw [hp.phase]
    exact hs.idle k
  · intro g _
    rw [EventLoop.backlog_pushed hp, List.count_append, List.count_singleton, flight]
    by_cases hfg : f = g <;> simp [hfg]
  · intro k' g hk
    simp [Ne.symm hk]

/-- The first functor of the local batch is taken in hand. -/
theorem Inv.pop (hs : Inv ls s none) {e : EventLoop Functor} {rest : List Functor}
    (hf : (s.loops k).functors = f :: rest) (h : (s.loops k).step .runFunctor = some e) :
    Inv ls { s with loops := Function.update s.loops k e } (some (k, f)) ∧
      e.phase = .functors := by
  obtain ⟨g, rest', hg, hbacklog⟩ := EventLoop.backlog_runFunctor h
  rw [hf, List.cons.injEq] at hg
  obtain ⟨rfl, rfl⟩ := hg
  have hphase : (s.loops k).phase = .functors ∧ e.phase = .functors := by
    rcases EventLoop.step_cases h with ⟨_, -, hne, -⟩ | ⟨hne, -⟩ | ⟨-, g, hr⟩ | ⟨-, hne, -⟩
    · exact absurd rfl hne
    · cases hne
    · exact hr.phase
    · exact absurd rfl hne
  refine ⟨hs.withLoop (EventLoop.queueInv_step (hs.queues k) h) ?_ ?_ ?_, hphase.2⟩
  · intro _
    exact hs.idle k (by rw [hphase.1]; decide)
  · intro g _
    rw [flight, hbacklog, List.count_cons]
    by_cases hfg : f = g <;> simp [hfg]
  · intro k' g hk
    simp [Ne.symm hk]

/-- A loop leaves the handlers only by `endHandling`. -/
theorem handling_of_step {e e' : EventLoop Functor} {l : EventLoop.Label Functor}
    (h : e.step l = some e') (hl : l ≠ .endHandling) (hphase : e.phase = .handling) :
    e'.phase = .handling := by
  rcases EventLoop.step_cases h with ⟨f, -, -, -, hp⟩ | ⟨-, hw⟩ | ⟨-, f, hr⟩ | ⟨-, -, -, hm⟩
  · exact hp.phase.trans hphase
  · exact absurd (hphase.symm.trans hw.phase.1) (by decide)
  · exact absurd (hphase.symm.trans hr.phase.1) (by decide)
  · cases hm.phase with
    | stay hph => exact hph.trans hphase
    | start hph => exact absurd (hphase.symm.trans hph.1) (by decide)
    | test hph => exact absurd (hphase.symm.trans hph.1) (by decide)
    | ret hph => exact absurd (hphase.symm.trans hph.1) (by decide)
    | poll hph => exact absurd (hphase.symm.trans hph.1) (by decide)
    | handled hph hl' => exact absurd hl' hl
    | finish hph => exact absurd (hphase.symm.trans hph.1) (by decide)

theorem Inv.plain (hs : Inv ls s none) {l : EventLoop.Label Functor} (hl : s.Plain k l)
    {e : EventLoop Functor} (h : (s.loops k).step l = some e) :
    Inv ls { s with loops := Function.update s.loops k e } none := by
  have hrun : l ≠ .runFunctor := by
    rintro rfl
    exact hl
  have hpushed : ∀ f, f ≠ .other → (l.pushed.toList).count f = 0 := by
    intro f hf
    cases l with
    | queueInLoop g => simp [EventLoop.Label.pushed, hl.2, hf.symm]
    | pushFrom thread g => simp [EventLoop.Label.pushed, hl.2, hf.symm]
    | _ => rfl
  refine hs.withLoop (EventLoop.queueInv_step (hs.queues k) h) ?_ ?_ ?_
  · intro hphase
    by_cases hend : l = .endHandling
    · subst hend
      exact hl.2
    · exact hs.idle k fun hhandling => hphase (handling_of_step h hend hhandling)
  · intro f hf
    rw [EventLoop.backlog_step (hs.queues k) h hrun, List.count_append, hpushed f hf]
    rfl
  · intro _ _ _
    exact Iff.rfl

/-! ### The stages of a connection -/

theorem conn_of_owed (h : owed k c stage = some (k', f)) : f.conn = some c := by
  cases stage <;> cases h <;> rfl

/-- Connection `c` moves on; the others do not notice. -/
theorem Inv.update (hs : Inv ls s hand) (hc : s.conns[c]? = some conn) (stage : Stage)
    (connections' : Bytes → Option ConnId) (hname : conn'.name = conn.name)
    (hnew : ConnInv ls { s with conns := s.conns.set c conn', connections := connections' } hand' c
      conn' stage)
    (hhand : ∀ k f, f.conn ≠ some c → (hand' = some (k, f) ↔ hand = some (k, f)))
    (hsub : ∀ nm d, connections' nm = some d → s.connections nm = some d)
    (hkeep : ∀ nm, nm ≠ conn.name → connections' nm = s.connections nm) :
    Inv ls { s with conns := s.conns.set c conn', connections := connections' } hand' := by
  have hlt := lt_length hc
  have hself : (s.conns.set c conn')[c]? = some conn' := List.getElem?_set_self hlt
  have hothers : ∀ {d : ℕ}, d ≠ c → (s.conns.set c conn')[d]? = s.conns[d]? := fun hd =>
    List.getElem?_set_ne hd.symm
  have hsame : ∀ (d : ℕ), d ≠ c → ∀ k f, f.conn = some d →
      flight { s with conns := s.conns.set c conn', connections := connections' } hand' k f =
        s.flight hand k f := by
    intro d hd k f hf
    have hne : f.conn ≠ some c := by
      rw [hf]
      simpa using hd
    simp only [flight, hhand k f hne]
  refine { hs with
    accepted := by simpa using hs.accepted, connId := by simpa using hs.connId
    names := ?_, entries := ?_, conns := ?_, known := ?_, activeKnown := ?_ }
  · intro d conn'' hd
    by_cases hdc : d = c
    · subst hdc
      rw [hself] at hd
      cases hd
      rw [hname]
      exact hs.names d conn hc
    · exact hs.names d conn'' (hothers hdc ▸ hd)
  · intro nm d hd
    obtain ⟨conn'', hd', hnm⟩ := hs.entries nm d (hsub nm d hd)
    by_cases hdc : d = c
    · subst hdc
      rw [hc] at hd'
      cases hd'
      exact ⟨conn', hself, hname.trans hnm⟩
    · exact ⟨conn'', (hothers hdc).trans hd', hnm⟩
  · intro d conn'' hd
    by_cases hdc : d = c
    · subst hdc
      rw [hself] at hd
      cases hd
      exact ⟨stage, hnew⟩
    · rw [hothers hdc] at hd
      obtain ⟨stage', hst⟩ := hs.conns d conn'' hd
      refine ⟨stage', { hst with inFlight := fun k f hf => ?_, listed := ?_ }⟩
      · exact (hsame d hdc k f hf).trans (hst.inFlight k f hf)
      · have hne : conn''.name ≠ conn.name := fun h => hdc (hs.name_injective hd hc h)
        rw [← hst.listed]
        exact iff_of_eq (congrArg (· = some d) (hkeep _ hne))
  · intro k f d hf hpos
    rw [List.length_set]
    by_cases hdc : d = c
    · rwa [hdc]
    · exact hs.known k f d hf (hsame d hdc k f hf ▸ hpos)
  · intro k d hd
    rw [List.length_set]
    exact hs.activeKnown k d hd

/-- Connection `c` ends its stage: the functor it owed is in hand before, and the one it owes now is
in hand after. -/
theorem Inv.advance (stage stage' : Stage) (hs : Inv ls s (owed conn.loop c stage))
    (hc : s.conns[c]? = some conn)
    (hst : ConnInv ls s (owed conn.loop c stage) c conn stage) {thread : LoopId} {action : Action}
    {tcp : TcpConnection} {connections' : Bytes → Option ConnId}
    (hstep : Lifecycle.step conn.loop stage
      ⟨action, thread, (s.loops thread).phase, s.connections conn.name == some c⟩ = some stage')
    (htcp : tcp.channel.isNoneEvent = false → stage' = .established)
    (hactive : ∀ k, c ∈ s.activeChannels k → stage' ≠ .accepted ∧ stage' ≠ .destroyed)
    (hclosed : 1 < stage'.rank → .handleClose c ∈ ls)
    (hlisted : connections' conn.name = some c ↔ stage'.listed)
    (hsub : ∀ nm d, connections' nm = some d → s.connections nm = some d)
    (hkeep : ∀ nm, nm ≠ conn.name → connections' nm = s.connections nm) :
    Inv ls { s.called thread c conn action tcp with connections := connections' }
      (owed conn.loop c stage') := by
  refine hs.update hc stage' connections' rfl
    { history := ?_, inFlight := ?_, registered := htcp, active := ?_, listed := hlisted
      closed := hclosed } ?_ hsub hkeep
  · exact run_concat_eq_some.2 ⟨stage, hst.history, hstep⟩
  · -- the functor in hand was the only one in flight, so none is left in the queues
    intro k f hf
    have hcount := hst.inFlight k f hf
    simp only [flight, Nat.add_eq_right] at hcount
    simp only [flight, hcount, Nat.zero_add]
  · intro k hk
    exact ⟨(hst.active k hk).1, hactive k hk⟩
  · intro k f hf
    exact iff_of_false (fun h => hf (conn_of_owed h)) fun h => hf (conn_of_owed h)

/-- An event of connection `c`. -/
theorem Inv.event (hs : Inv ls s none) (hc : s.conns[c]? = some conn)
    (hst : ConnInv ls s none c conn stage) {thread : LoopId}
    (hstep : Lifecycle.step conn.loop stage
      ⟨.handleEvent, thread, (s.loops thread).phase, s.connections conn.name == some c⟩ =
        some stage) :
    Inv ls (s.called thread c conn .handleEvent conn.tcp) none := by
  refine hs.update hc stage s.connections rfl
    { hst with history := ?_ } (fun _ _ _ => Iff.rfl) (fun _ _ => id) fun _ _ => rfl
  exact run_concat_eq_some.2 ⟨stage, hst.history, hstep⟩

/-- The functor in hand is the one that its connection owes. -/
theorem Inv.owed_of_hand (hs : Inv ls s (some (k, f))) (hf : f.conn = some c) :
    ∃ conn stage, s.conns[c]? = some conn ∧ ConnInv ls s (some (k, f)) c conn stage ∧
      owed conn.loop c stage = some (k, f) := by
  have hpos : 0 < s.flight (some (k, f)) k f := by
    rw [flight, if_pos rfl]
    exact Nat.succ_pos _
  have hlt : c < s.conns.length := hs.known k f c hf hpos
  have hc : s.conns[c]? = some s.conns[c] := List.getElem?_eq_getElem hlt
  obtain ⟨stage, hst⟩ := hs.conns c _ hc
  refine ⟨_, stage, hc, hst, ?_⟩
  by_contra hne
  rw [hst.inFlight k f hf, if_neg hne] at hpos
  exact absurd hpos (Nat.lt_irrefl 0)

/-! ### The functions of the server -/

theorem Inv.connectEstablished (hs : Inv ls s (some (k, .connectEstablished c)))
    (h : s.connectEstablished k c = some t) : Inv ls t none := by
  obtain ⟨conn, stage, hc, hst, howed⟩ := hs.owed_of_hand rfl
  simp only [TcpServer.connectEstablished, hc, Option.bind_eq_bind, Option.bind_some,
    Option.some.injEq] at h
  subst h
  cases stage with
  | accepted =>
    cases howed
    refine Inv.advance .accepted .established hs hc hst ?_ (fun _ => rfl)
      (fun _ _ => ⟨by decide, by decide⟩) (fun h => absurd h (by decide)) hst.listed
      (fun _ _ => id) fun _ _ => rfl
    simp [Lifecycle.step]
  | _ => cases howed

theorem Inv.removeConnectionInLoop (hs : Inv ls s (some (k, .removeConnectionInLoop c)))
    (h : s.removeConnectionInLoop k c = some t) : Inv ls t none := by
  obtain ⟨conn, stage, hc, hst, howed⟩ := hs.owed_of_hand rfl
  simp only [TcpServer.removeConnectionInLoop, hc, Option.bind_eq_bind, Option.bind_some,
    Option.some.injEq] at h
  subst h
  cases stage with
  | closed =>
    cases howed
    refine Inv.queueInLoop (Inv.advance .closed .removed hs hc hst ?_ ?_
      (fun _ _ => ⟨by decide, by decide⟩) (fun _ => hst.closed (by decide)) ?_ ?_ ?_) _
    · simp [Lifecycle.step]
    · intro hreg
      exact absurd (hst.registered hreg) (by decide)
    · exact iff_of_false (by simp) id
    · intro nm d hd
      by_cases hnm : nm = conn.name
      · rw [hnm, Function.update_self] at hd
        cases hd
      · rwa [Function.update_of_ne hnm] at hd
    · intro nm hnm
      exact Function.update_of_ne hnm _ _
  | _ => cases howed

theorem Inv.connectDestroyed (hs : Inv ls s (some (k, .connectDestroyed c)))
    (hphase : (s.loops k).phase = .functors) (h : s.connectDestroyed k c = some t) :
    Inv ls t none := by
  obtain ⟨conn, stage, hc, hst, howed⟩ := hs.owed_of_hand rfl
  simp only [TcpServer.connectDestroyed, hc, Option.bind_eq_bind, Option.bind_some,
    Option.bind_eq_some_iff, Option.some.injEq] at h
  obtain ⟨r, hr, rfl⟩ := h
  cases stage with
  | removed =>
    cases howed
    have hunlisted : ¬ s.connections conn.name = some c := fun hl => hst.listed.1 hl
    refine Inv.advance .removed .destroyed hs hc hst ?_ ?_ ?_
      (fun _ => hst.closed (by decide)) (iff_of_false hunlisted id) (fun _ _ => id) fun _ _ => rfl
    · simp [Lifecycle.step, hphase, hunlisted]
    · intro hreg
      rw [TcpConnection.isNoneEvent_connectDestroyed hr] at hreg
      cases hreg
    · -- no loop iterates over its channels while it calls functors
      intro k hk
      obtain ⟨rfl, -⟩ := hst.active k hk
      rw [hs.idle conn.loop (by rw [hphase]; decide)] at hk
      cases hk
  | _ => cases howed

theorem Inv.execute (hs : Inv ls s (some (k, f)))
    (hphase : ∀ c, f = .connectDestroyed c → (s.loops k).phase = .functors)
    (h : s.execute k f = some t) : Inv ls t none := by
  cases f with
  | connectEstablished c => exact hs.connectEstablished h
  | removeConnectionInLoop c => exact hs.removeConnectionInLoop h
  | connectDestroyed c => exact hs.connectDestroyed (hphase c rfl) h
  | other =>
    cases h
    have hsame : ∀ k' f, f ≠ .other → s.flight none k' f = s.flight (some (k, .other)) k' f := by
      intro k' f hf
      simp [flight, hf.symm]
    refine { hs with conns := ?_, known := ?_ }
    · intro c conn hc
      obtain ⟨stage, hst⟩ := hs.conns c conn hc
      refine ⟨stage, { hst with inFlight := fun k' f hf => ?_ }⟩
      exact (hsame k' f (Functor.ne_other hf)).trans (hst.inFlight k' f hf)
    · intro k' f c hf hpos
      exact hs.known k' f c hf (hsame k' f (Functor.ne_other hf) ▸ hpos)

theorem Inv.runInLoop (hs : Inv ls s (some (k, f))) (hf : ∀ c, f ≠ .connectDestroyed c)
    {thread : LoopId} (h : s.runInLoop thread k f = some t) : Inv ls t none := by
  unfold TcpServer.runInLoop at h
  split_ifs at h with hthread
  · -- the loop's own thread runs the functor at once
    subst hthread
    exact hs.execute (fun c hc => absurd hc (hf c)) h
  · cases h
    exact hs.queueInLoop thread

theorem Inv.handleClose (hs : Inv ls s none) (hc : s.conns[c]? = some conn)
    (hst : ConnInv ls s none c conn .established) (hclosed : .handleClose c ∈ ls)
    (h : s.handleClose conn.loop c conn = some t) : Inv ls t none := by
  have hadvance : Inv ls (s.called conn.loop c conn .handleClose conn.tcp.handleClose.1)
      (some (baseLoop, .removeConnectionInLoop c)) := by
    refine Inv.advance .established .closed hs hc hst ?_ (fun h => by cases h)
      (fun _ _ => ⟨by decide, by decide⟩) (fun _ => hclosed) hst.listed (fun _ _ => id)
      fun _ _ => rfl
    simp [Lifecycle.step]
  exact Inv.runInLoop hadvance (by simp) h

/-- The next connection has a name of its own. -/
theorem Inv.connName_fresh (hs : Inv ls s hand) (hbound : s.conns.length + 1 < 2 ^ 31) :
    s.connections s.connName = none := by
  rw [Option.eq_none_iff_forall_ne_some]
  intro d hd
  obtain ⟨conn, hconn, hname⟩ := hs.entries _ d hd
  have hlt := lt_length hconn
  rw [hs.names d conn hconn, connName, hs.connId] at hname
  have heq := connNameOf_injective hs.ipPort (by omega) hbound hname
  omega

theorem getElem?_concat_cases {α : Type} {l : List α} {a x : α} {d : ℕ}
    (h : (l ++ [a])[d]? = some x) : l[d]? = some x ∨ d = l.length ∧ x = a := by
  rcases Nat.lt_or_ge d l.length with hlt | hge
  · rw [List.getElem?_append_left hlt] at h
    exact .inl h
  · rw [List.getElem?_append_right hge] at h
    have hzero := (List.getElem?_eq_some_iff.1 h).1
    rw [List.length_singleton] at hzero
    have heq : d = l.length := by omega
    subst heq
    rw [Nat.sub_self] at h
    cases h
    exact .inr ⟨rfl, rfl⟩

theorem length_accept (s : TcpServer) (ioLoop : LoopId) :
    (s.accept ioLoop).conns.length = s.conns.length + 1 := by
  simp [TcpServer.accept]

/-- Nothing else is in flight after an accept. -/
theorem flight_accept (ioLoop : LoopId) (h : f.conn ≠ some s.conns.length) :
    (s.accept ioLoop).flight (some (ioLoop, .connectEstablished s.conns.length)) k f =
      s.flight none k f := by
  have hne : f ≠ .connectEstablished s.conns.length := by
    rintro rfl
    exact h rfl
  simp [flight, TcpServer.accept, hne.symm]

/-- An old connection does not notice the accept. -/
theorem ConnInv.accept (hst : ConnInv ls s none c conn stage) (hc : c < s.conns.length)
    (hfresh : s.connections s.connName = none) (ioLoop : LoopId) :
    ConnInv (ls ++ [.newConnection]) (s.accept ioLoop)
      (some (ioLoop, .connectEstablished s.conns.length)) c conn stage := by
  refine { hst with
    inFlight := fun k f hf => ?_, listed := ?_
    closed := fun h => List.mem_append_left _ (hst.closed h) }
  · refine (flight_accept ioLoop ?_).trans (hst.inFlight k f hf)
    rw [hf]
    simpa using hc.ne
  · rw [← hst.listed]
    by_cases hname : conn.name = s.connName
    · -- neither map has the old connection under the new name
      rw [hname, hfresh]
      simp [TcpServer.accept, hc.ne']
    · simp [TcpServer.accept, Function.update_of_ne hname]

/-- The new connection owes `connectEstablished`. -/
theorem Inv.conn_accepted (hs : Inv ls s none) (ioLoop : LoopId) :
    ConnInv (ls ++ [.newConnection]) (s.accept ioLoop)
      (some (ioLoop, .connectEstablished s.conns.length)) s.conns.length
      { name := s.connName, loop := ioLoop } .accepted := by
  refine {
    history := rfl, inFlight := ?_, registered := ?_, active := ?_, listed := ?_
    closed := fun h => absurd h (by decide) }
  · intro k f hf
    have hnone : s.flight none k f = 0 := by
      by_contra hpos
      exact absurd (hs.known k f _ hf (Nat.pos_of_ne_zero hpos)) (Nat.lt_irrefl _)
    have hzero := (Nat.add_eq_zero_iff.1 hnone).1
    show (s.loops k).backlog.count f + _ = _
    rw [hzero, Nat.zero_add]
    rfl
  · intro hreg
    cases hreg
  · intro k hk
    exact absurd (hs.activeKnown k _ hk) (Nat.lt_irrefl _)
  · exact iff_of_true (by simp [TcpServer.accept]) trivial

/-- The connection is accepted, and its functor is in hand. -/
theorem Inv.accept (hs : Inv ls s none)
    (hbound : (ls ++ [Label.newConnection]).count .newConnection < 2 ^ 31) (ioLoop : LoopId) :
    Inv (ls ++ [.newConnection]) (s.accept ioLoop)
      (some (ioLoop, .connectEstablished s.conns.length)) := by
  have hcount : (ls ++ [Label.newConnection]).count .newConnection =
      ls.count .newConnection + 1 := by
    rw [List.count_append, List.count_singleton_self]
  have haccepted := hs.accepted
  have hfresh := hs.connName_fresh (by omega)
  refine { hs with
    bound := hbound, accepted := ?_, connId := ?_, names := ?_, entries := ?_, conns := ?_
    known := ?_, activeKnown := ?_ }
  · rw [length_accept, hcount, haccepted]
  · rw [length_accept]
    show s.nextConnId + 1 = _
    rw [hs.connId]
    exact (BitVec.ofNat_add _ _).symm
  · intro d conn hd
    rcases getElem?_concat_cases hd with hd | ⟨rfl, rfl⟩
    · exact hs.names d conn hd
    · show s.connName = _
      rw [connName, hs.connId]
      rfl
  · intro nm d hd
    by_cases hnm : nm = s.connName
    · subst hnm
      simp only [TcpServer.accept, Function.update_self, Option.some.injEq] at hd
      subst hd
      exact ⟨_, List.getElem?_concat_length, rfl⟩
    · simp only [TcpServer.accept, Function.update_of_ne hnm] at hd
      obtain ⟨conn, hconn, hname⟩ := hs.entries nm d hd
      exact ⟨conn, (List.getElem?_append_left (lt_length hconn)).trans hconn, hname⟩
  · intro d conn hd
    rcases getElem?_concat_cases hd with hd | ⟨rfl, rfl⟩
    · obtain ⟨stage, hst⟩ := hs.conns d conn hd
      exact ⟨stage, hst.accept (lt_length hd) hfresh ioLoop⟩
    · exact ⟨.accepted, hs.conn_accepted ioLoop⟩
  · intro k f d hf hpos
    rw [length_accept]
    by_cases hd : d = s.conns.length
    · omega
    · rw [flight_accept ioLoop (by rw [hf]; simpa using hd)] at hpos
      have hlt := hs.known k f d hf hpos
      omega
  · intro k d hd
    rw [length_accept]
    have hlt := hs.activeKnown k d hd
    omega

/-! ### Every step -/

theorem registered_iff : s.registered k c = true ↔
    ∃ conn, s.conns[c]? = some conn ∧ conn.loop = k ∧ conn.tcp.channel.isNoneEvent = false := by
  unfold registered
  cases s.conns[c]? with
  | none => simp
  | some conn => simp

/-- The poller reports registered channels only. -/
theorem Inv.withActive (hs : Inv ls s hand) {activeChannels' : LoopId → List ConnId}
    (hidle : ∀ k, (s.loops k).phase ≠ .handling → activeChannels' k = [])
    (hactive : ∀ k, ∀ c ∈ activeChannels' k, c ∈ s.activeChannels k ∨ s.registered k c = true) :
    Inv ls { s with activeChannels := activeChannels' } hand := by
  refine { hs with idle := hidle, conns := ?_, activeKnown := ?_ }
  · intro c conn hc
    obtain ⟨stage, hst⟩ := hs.conns c conn hc
    refine ⟨stage, { hst with active := fun k hk => ?_ }⟩
    rcases hactive k c hk with hk | hreg
    · exact hst.active k hk
    · obtain ⟨conn', hc', hloop, hnone⟩ := registered_iff.1 hreg
      rw [hc] at hc'
      cases hc'
      have hstage := hst.registered hnone
      subst hstage
      exact ⟨hloop, by decide, by decide⟩
  · intro k c hc
    rcases hactive k c hc with hk | hreg
    · exact hs.activeKnown k c hk
    · obtain ⟨conn, hconn, -⟩ := registered_iff.1 hreg
      exact lt_length hconn

theorem Inv.poll (hs : Inv ls s none) {wakeupActive : Bool} {channels : List ConnId}
    (hchannels : ∀ c ∈ channels, s.registered k c = true) {e : EventLoop Functor}
    (h : (s.loops k).step (.poll wakeupActive) = some e) :
    Inv ls { s with
      loops := Function.update s.loops k e
      activeChannels := Function.update s.activeChannels k channels } none := by
  have hphase : e.phase = .handling := by
    simp only [EventLoop.step] at h
    split_ifs at h
    cases h
    rfl
  have hloop : Inv ls { s with loops := Function.update s.loops k e } none := by
    refine hs.withLoop (EventLoop.queueInv_step (hs.queues k) h) (fun hne => absurd hphase hne) ?_
      fun _ _ _ => Iff.rfl
    intro f _
    rw [EventLoop.backlog_step (hs.queues k) h (by simp)]
    exact congrArg (· + 0) (congrArg (List.count f) (List.append_nil _))
  refine hloop.withActive (fun k' hk' => ?_) fun k' c hc => ?_
  · by_cases hk : k' = k
    · subst hk
      simp only [Function.update_self] at hk'
      exact absurd hphase hk'
    · rw [Function.update_of_ne hk]
      exact hloop.idle k' hk'
  · by_cases hk : k' = k
    · subst hk
      rw [Function.update_self] at hc
      exact .inr (hchannels c hc)
    · rw [Function.update_of_ne hk] at hc
      exact .inl hc

theorem Inv.newConnection (hs : Inv ls s none)
    (hbound : (ls ++ [Label.newConnection]).count .newConnection < 2 ^ 31)
    (h : s.newConnection = some t) : Inv (ls ++ [.newConnection]) t none := by
  have hnext : Inv ls s.getNextLoop.2 none := by
    unfold getNextLoop
    split_ifs
    · exact hs
    · refine { hs with conns := fun c conn hc => ?_ }
      obtain ⟨stage, hst⟩ := hs.conns c conn hc
      exact ⟨stage, { hst with }⟩
  have hlength : s.getNextLoop.2.conns.length = s.conns.length := by
    unfold getNextLoop
    split_ifs <;> rfl
  have haccept := hnext.accept hbound s.getNextLoop.1
  rw [hlength] at haccept
  exact haccept.runInLoop (by simp) h

theorem Inv.runFunctor (hs : Inv ls s none) {e : EventLoop Functor} {rest : List Functor}
    (hf : (s.loops k).functors = f :: rest) (he : (s.loops k).step .runFunctor = some e)
    (h : TcpServer.execute { s with loops := Function.update s.loops k e } k f = some t) :
    Inv ls t none := by
  obtain ⟨hpop, hphase⟩ := hs.pop hf he
  refine hpop.execute (fun c _ => ?_) h
  show (Function.update s.loops k e k).phase = .functors
  rw [Function.update_self, hphase]

/-- The connection whose channel is at the head is established and not destroyed. -/
theorem Inv.atChannel (hs : Inv ls s none) (hc : s.conns[c]? = some conn)
    (h : s.AtChannel conn.loop c) :
    ∃ stage, ConnInv ls s none c conn stage ∧ stage ≠ .accepted ∧ stage ≠ .destroyed := by
  obtain ⟨stage, hst⟩ := hs.conns c conn hc
  exact ⟨stage, hst, (hst.active conn.loop (List.mem_of_mem_head? h.2.2)).2⟩

theorem inv_step (hs : Inv ls s none) {l : Label} (h : step s l = some t)
    (haccept : (ls ++ [l]).count .newConnection < 2 ^ 31)
    (hclose : ∀ c, (ls ++ [l]).count (.handleClose c) ≤ 1) : Inv (ls ++ [l]) t none := by
  cases l with
  | loop k l =>
    simp only [step] at h
    split_ifs at h with hl
    obtain ⟨e, he, rfl⟩ := Option.map_eq_some_iff.1 h
    exact (hs.concat (by simp)).plain hl.2 he
  | poll k wakeupActive channels =>
    simp only [step] at h
    split_ifs at h with hl
    obtain ⟨e, he, rfl⟩ := Option.map_eq_some_iff.1 h
    exact (hs.concat (by simp)).poll hl.2.2 he
  | newConnection =>
    simp only [step] at h
    split_ifs at h with hl
    exact hs.newConnection haccept h
  | handleEvent c =>
    simp only [step] at h
    split at h
    · rename_i conn hc
      split_ifs at h with hat
      cases h
      have hs' := hs.concat (l := .handleEvent c) (by simp)
      obtain ⟨stage, hst, haccepted, hdestroyed⟩ := hs'.atChannel hc hat
      refine hs'.event hc hst ?_
      cases stage with
      | accepted => exact absurd rfl haccepted
      | destroyed => exact absurd rfl hdestroyed
      | _ => simp [Lifecycle.step]
    · cases h
  | handleClose c =>
    simp only [step] at h
    split at h
    · rename_i conn hc
      split_ifs at h with hat
      obtain ⟨stage, hst, haccepted, hdestroyed⟩ := hs.atChannel hc hat
      -- the connection was not closed before
      have hopen : Label.handleClose c ∉ ls := by
        intro hmem
        have hone := hclose c
        rw [List.count_append, List.count_singleton_self] at hone
        have hpos := List.count_pos_iff.2 hmem
        omega
      have hstage : stage = .established := by
        cases stage with
        | established => rfl
        | accepted => exact absurd rfl haccepted
        | _ => exact absurd (hst.closed (by decide)) hopen
      subst hstage
      have hmem : Label.handleClose c ∈ ls ++ [.handleClose c] := by simp
      exact (hs.concat (by simp)).handleClose hc { hst with closed := fun _ => hmem } hmem h
    · cases h
  | nextChannel k =>
    simp only [step] at h
    split_ifs at h
    cases h
    refine (hs.concat (by simp)).withActive (fun k' hk' => ?_) fun k' c hc => .inl ?_
    · by_cases hk : k' = k
      · subst hk
        rw [Function.update_self, hs.idle k' hk', List.tail_nil]
      · rw [Function.update_of_ne hk, hs.idle k' hk']
    · by_cases hk : k' = k
      · subst hk
        rw [Function.update_self] at hc
        exact List.mem_of_mem_tail hc
      · rwa [Function.update_of_ne hk] at hc
  | runFunctor k =>
    simp only [step] at h
    split_ifs at h
    split at h
    · rename_i f rest hf
      obtain ⟨e, he, h⟩ := Option.bind_eq_some_iff.1 h
      exact (hs.concat (by simp)).runFunctor hf he h
    · cases h

/-! ### Every run -/

/-- The invariant holds in every run that accepts fewer than `2 ^ 31` connections and closes each of
them at most once. -/
theorem inv_run {listenAddr : InetAddress} {nameArg : Bytes} {numThreads : ℕ}
    (h : run step (new listenAddr nameArg numThreads) ls = some s)
    (haccept : ls.count .newConnection < 2 ^ 31)
    (hclose : ∀ c, ls.count (.handleClose c) ≤ 1) : Inv ls s none := by
  refine run_induction (P := fun ls s => ls.count .newConnection < 2 ^ 31 →
    (∀ c, ls.count (.handleClose c) ≤ 1) → Inv ls s none)
    (fun _ _ => inv_new listenAddr nameArg numThreads) ?_ h haccept hclose
  intro ms u l v ih hstep haccept hclose
  have hle : ∀ m : Label, ms.count m ≤ (ms ++ [l]).count m := fun m => by
    rw [List.count_append]
    exact Nat.le_add_right _ _
  have hu := ih ((hle _).trans_lt haccept) fun c => (hle _).trans (hclose c)
  exact inv_step hu hstep haccept hclose

theorem connections_newConnection (h : s.newConnection = some t) :
    t.connections = Function.update s.connections s.connName (some s.conns.length) := by
  have hnext : s.getNextLoop.2.accept s.getNextLoop.1 =
      { s.accept s.getNextLoop.1 with next := s.getNextLoop.2.next } := by
    unfold getNextLoop
    split_ifs <;> rfl
  unfold TcpServer.newConnection at h
  simp only [hnext, runInLoop] at h
  split_ifs at h
  · obtain ⟨conn, -, hconn⟩ := Option.bind_eq_some_iff.1 h
    cases hconn
    rfl
  · cases h
    rfl

/-- **The life of a connection.**  In every state of every run, for any number of I/O loops:
`connections_` has the accepted connections for which `removeConnectionInLoop` has not run, a step
of `newConnection` keeps all its entries, and the history of each connection is in order:
`connectEstablished` runs at most once, in its loop, in front of everything else;
`removeConnectionInLoop` runs in the base loop behind `handleClose`; and `connectDestroyed` runs at
most once, in its loop, inside `doPendingFunctors`, behind `removeConnectionInLoop` and without an
entry in `connections_`. -/
theorem connection_lifecycle {listenAddr : InetAddress} {nameArg : Bytes} {numThreads : ℕ}
    (h : run step (new listenAddr nameArg numThreads) ls = some s)
    (haccept : ls.count .newConnection < 2 ^ 31)
    (hclose : ∀ c, ls.count (.handleClose c) ≤ 1) :
    s.conns.length = ls.count .newConnection ∧
    (∀ (nm : Bytes) (c : ℕ), s.connections nm = some c ↔
      ∃ conn, s.conns[c]? = some conn ∧ conn.name = nm ∧
        ∀ e ∈ conn.history, e.action ≠ .removeConnectionInLoop) ∧
    (ls.count .newConnection + 1 < 2 ^ 31 → ∀ t, step s .newConnection = some t →
      ∀ nm c, s.connections nm = some c → t.connections nm = some c) ∧
    (∀ (c : ℕ) (conn : Conn), s.conns[c]? = some conn → Ordered conn.loop conn.history) := by
  have hs := inv_run h haccept hclose
  have hremoved : ∀ {c : ℕ} {conn : Conn}, s.conns[c]? = some conn →
      (s.connections conn.name = some c ↔
        ∀ e ∈ conn.history, e.action ≠ .removeConnectionInLoop) := by
    intro c conn hc
    obtain ⟨stage, hst⟩ := hs.conns c conn hc
    have hmem := Lifecycle.mem_iff hst.history (a := .removeConnectionInLoop) rfl
    rw [hst.listed, ← not_iff_not, Lifecycle.not_listed_iff, ← hmem]
    simp only [ne_eq, not_forall, not_not, exists_prop]
  refine ⟨hs.accepted, fun nm c => ⟨fun hnm => ?_, ?_⟩, fun hbound t ht nm c hnm => ?_, ?_⟩
  · obtain ⟨conn, hc, rfl⟩ := hs.entries nm c hnm
    exact ⟨conn, hc, rfl, (hremoved hc).1 hnm⟩
  · rintro ⟨conn, hc, rfl, hhistory⟩
    exact (hremoved hc).2 hhistory
  · simp only [step] at ht
    split_ifs at ht
    have hfresh := hs.connName_fresh (by rw [hs.accepted]; exact hbound)
    have hne : nm ≠ s.connName := by
      rintro rfl
      rw [hfresh] at hnm
      cases hnm
    rw [connections_newConnection ht, Function.update_of_ne hne, hnm]
  · intro c conn hc
    obtain ⟨stage, hst⟩ := hs.conns c conn hc
    exact Lifecycle.ordered_of_run hst.history

/-- One connection over an I/O loop of its own, from `accept` to `connectDestroyed`. -/
theorem connection_lifecycle_closed :
    ∃ s : TcpServer, run step (new ⟨(127, 0, 0, 1), 8080⟩ [] 1)
      [.loop 0 .startLoop, .loop 0 .test, .poll 0 false [], .loop 1 .startLoop, .loop 1 .test,
        .newConnection, .loop 1 (.wakeup 0), .poll 1 true [], .loop 1 .handleRead,
        .loop 1 .endHandling, .loop 1 .swap, .runFunctor 1, .loop 1 .endFunctors, .loop 1 .test,
        .poll 1 false [0], .handleEvent 0, .handleClose 0, .loop 0 (.wakeup 1), .nextChannel 1,
        .loop 1 .endHandling, .loop 0 .endHandling, .loop 0 .swap, .runFunctor 0,
        .loop 1 (.wakeup 0), .loop 1 .swap, .runFunctor 1] = some s ∧
      s.conns.length = 1 ∧
      ∀ (c : ℕ) (conn : Conn), s.conns[c]? = some conn → Ordered conn.loop conn.history := by
  have hrun : (run step (new ⟨(127, 0, 0, 1), 8080⟩ [] 1)
      [.loop 0 .startLoop, .loop 0 .test, .poll 0 false [], .loop 1 .startLoop, .loop 1 .test,
        .newConnection, .loop 1 (.wakeup 0), .poll 1 true [], .loop 1 .handleRead,
        .loop 1 .endHandling, .loop 1 .swap, .runFunctor 1, .loop 1 .endFunctors, .loop 1 .test,
        .poll 1 false [0], .handleEvent 0, .handleClose 0, .loop 0 (.wakeup 1), .nextChannel 1,
        .loop 1 .endHandling, .loop 0 .endHandling, .loop 0 .swap, .runFunctor 0,
        .loop 1 (.wakeup 0), .loop 1 .swap, .runFunctor 1]).isSome = true := by decide
  obtain ⟨s, hs⟩ := Option.isSome_iff_exists.1 hrun
  refine ⟨s, hs, ?_⟩
  obtain ⟨hlength, -, -, hordered⟩ := connection_lifecycle hs (by decide) fun c => by
    by_cases hc : c = 0
    · subst hc
      decide
    · rw [List.count_eq_zero.2 (by simp [hc])]
      exact Nat.zero_le _
  exact ⟨hlength, hordered⟩

end TcpServer

end TinyNetwork
