import TinyNetwork.Net.Dispatch
import TinyNetwork.Http.HeaderSection
import TinyNetwork.Http.BodyFraming

/-!
# Requests on a connection that is closing

After a response that closes the connection, or a 400, `onMessage` calls `conn->shutdown()`.  That
is the only trace: `handleRead` goes on calling `onMessage`, which parses and dispatches as before,
and `send` drops the response.

`closing_silent_iff`: nothing is dispatched behind a closing answer, and every response is accepted,
if and only if no message that comes in when the connection is not connected completes a request
head.
-/

namespace TinyNetwork

open Bytes Search Incremental HttpContext

/-- An answer after which the server closes. -/
def HttpEvent.closes : HttpEvent → Bool
  | .httpCallback _ => false
  | .response resp _ => resp.closeConnection
  | .badRequest _ => true

/-- `httpCallback_` is called. -/
def HttpEvent.dispatches : HttpEvent → Bool
  | .httpCallback _ => true
  | .response _ _ => false
  | .badRequest _ => false

/-- Nothing is dispatched behind a closing answer, and every response is accepted by `send`. -/
structure Orderly (log : List HttpEvent) : Prop where
  silent : log.Pairwise fun e e' => e.closes = true → e'.dispatches = false
  accepted : ∀ resp connected, .response resp connected ∈ log → connected = true

theorem orderly_nil : Orderly [] := ⟨List.Pairwise.nil, by simp⟩

theorem Orderly.badRequest {log : List HttpEvent} (h : Orderly log) (b : Bool) :
    Orderly (log ++ [.badRequest b]) := by
  refine ⟨List.pairwise_append.2 ⟨h.silent, List.pairwise_singleton _ _, ?_⟩, ?_⟩
  · intro e _ e' he' _
    obtain rfl := List.mem_singleton.1 he'
    rfl
  · intro resp connected hmem
    rcases List.mem_append.1 hmem with hold | hnew
    · exact h.accepted resp connected hold
    · cases List.mem_singleton.1 hnew

/-- A request may be dispatched as long as nothing has closed. -/
theorem Orderly.served {log : List HttpEvent} (h : Orderly log)
    (hopen : ∀ e ∈ log, e.closes = false) (req : HttpRequest) (resp : HttpResponse) :
    Orderly (log ++ [.httpCallback req, .response resp true]) := by
  refine ⟨List.pairwise_append.2 ⟨h.silent, ?_, ?_⟩, ?_⟩
  · exact List.pairwise_pair.2 fun hcloses => by cases hcloses
  · intro e he e' _ hcloses
    rw [hopen e he] at hcloses
    cases hcloses
  · intro resp' connected hmem
    rcases List.mem_append.1 hmem with hold | hnew
    · exact h.accepted resp' connected hold
    · rcases List.mem_pair.1 hnew with hnew | hnew
      · cases hnew
      · cases hnew
        rfl

/-- The bytes begin with what the parser takes for a whole request head: a valid request line,
header lines with a colon and a line without one. -/
def HeadArrived (bs : Bytes) : Prop :=
  ∃ (sec : HeaderSection) (last rest : Bytes), IsLine last ∧ 58 ∉ last ∧
    bs = sec.lines ++ (last ++ (kCRLF ++ rest))

theorem headArrived_iff {bs : Bytes} :
    HeadArrived bs ↔ ∃ ctx rest, lineReader.read {} bs = (some true, ctx, rest) := by
  constructor
  · rintro ⟨sec, last, rest, hline, hcolon, hsplit⟩
    exact ⟨_, rest, read_eq_gotAll_iff.2 ⟨sec, last, hline, hcolon, hsplit, rfl⟩⟩
  · rintro ⟨ctx, rest, hread⟩
    obtain ⟨sec, last, hline, hcolon, hsplit, -⟩ := read_eq_gotAll_iff.1 hread
    exact ⟨sec, last, rest, hline, hcolon, hsplit⟩

namespace TcpConnection

theorem connected_eq_of_state_eq {c d : TcpConnection} (h : d.state = c.state) :
    d.connected = c.connected := by
  rw [connected, connected, h]

theorem connected_sendBuffer (c : TcpConnection) (m : Buffer) (heap : Heap) (w : WriteResult) :
    (c.sendBuffer m heap true w).1.1.connected = c.connected := by
  refine connected_eq_of_state_eq ?_
  unfold sendBuffer
  by_cases h : c.state = .kConnected
  · rw [if_pos h, if_pos rfl]
    exact (steady_sendInLoop c _ w).state
  · rw [if_neg h]

theorem connected_shutdown (c : TcpConnection) : (c.shutdown true).1.connected = false := by
  unfold shutdown
  by_cases h : c.state = .kConnected
  · rw [if_pos h]
    rfl
  · rw [if_neg h]
    simpa [connected] using h

end TcpConnection

open TcpConnection

namespace HttpServer

variable {S : Type} (server : HttpServer S)

/-- What a member function adds to the log, and that the connection is up behind it if it was and
nothing of this closes. -/
def Answers (s s' : HttpSession S) : Prop :=
  ∃ new, s'.log = s.log ++ new ∧
    s'.conn.connected = (s.conn.connected && !new.any HttpEvent.closes)

theorem Answers.refl (s : HttpSession S) (buf : Buffer) : Answers s { s with buf := buf } :=
  ⟨[], by simp, by simp⟩

theorem Answers.trans {s t u : HttpSession S} (hst : Answers s t) (htu : Answers t u) :
    Answers s u := by
  obtain ⟨new, hlog, hconn⟩ := hst
  obtain ⟨new', hlog', hconn'⟩ := htu
  refine ⟨new ++ new', by rw [hlog', hlog, List.append_assoc], ?_⟩
  rw [hconn', hconn, List.any_append, Bool.not_or, Bool.and_assoc]

theorem answers_onBadRequest (s : HttpSession S) (io : Io) : Answers s (onBadRequest s io) := by
  refine ⟨[.badRequest s.conn.connected], ?_, ?_⟩
  · simp [onBadRequest, HttpSession.record, HttpSession.perform]
  · have hconn := connected_shutdown
      (s.conn.send (ascii "HTTP/1.1 400 Bad Request\r\n\r\n") true io.badRequest).1
    simpa [onBadRequest, HttpSession.record, HttpSession.perform, HttpEvent.closes] using hconn

theorem answers_onRequest (s : HttpSession S) (req : HttpRequest) (io : Io) :
    Answers s (server.onRequest s req io) := by
  obtain ⟨resp, hresp⟩ : ∃ resp,
      resp = (server.httpCallback s.user req { closeConnection := closes req }).2 := ⟨_, rfl⟩
  refine ⟨[.httpCallback req, .response resp s.conn.connected], ?_, ?_⟩
  · simp only [onRequest, HttpSession.record, HttpSession.perform, ← hresp]
    split_ifs <;> simp
  · have hsend := s.conn.connected_sendBuffer (resp.appendToBuffer (Buffer.new kInitialSize))
      io.heap io.response
    simp only [onRequest, HttpSession.record, HttpSession.perform, ← hresp]
    split_ifs with hclose
    · simp [HttpEvent.closes, hclose, connected_shutdown]
    · simpa [HttpEvent.closes, hclose] using hsend

theorem answers_onMessage {s s' : HttpSession S} {t : TimeStamp} {io : Io}
    (h : server.onMessage s t io = some s') : Answers s s' := by
  unfold onMessage at h
  split at h
  · cases h
  · rename_i ok context buf hparse
    cases h
    have hparsed : Answers s { s with buf := buf } := .refl s buf
    have hbad : Answers s (onBadRequest { s with buf := buf } io) :=
      hparsed.trans (answers_onBadRequest _ io)
    split_ifs with hgot hok hok
    · exact hparsed.trans (server.answers_onRequest _ _ io)
    · exact hbad.trans (server.answers_onRequest _ _ io)
    · exact hparsed
    · exact hbad

/-! ### Runs of a connection -/

/-- What the loop hands to the connection: bytes that were read, the news that the socket is
writable, and the end of the input. -/
inductive ConnEvent
  | read (chunk : Bytes) (receiveTime : TimeStamp) (io : Io)
  | writable (heap : Heap) (w : WriteResult)
  | closed

/-- The handlers; `handleClose` takes the channel out of the poller, and with it the reads. -/
def step (s : HttpSession S) : ConnEvent → Option (HttpSession S)
  | .read chunk receiveTime io =>
    if s.conn.channel.reading then
      server.onMessage { s with buf := s.buf.append chunk } receiveTime io
    else none
  | .writable heap w =>
    if s.conn.channel.writing then some (s.perform (s.conn.handleWrite heap w)) else none
  | .closed => if s.conn.channel.reading then some (s.perform s.conn.handleClose) else none

/-- A message that comes in when the connection is not connected completes no head. -/
def ComesInTime (s : HttpSession S) : ConnEvent → Prop
  | .read chunk _ _ => s.conn.connected = true ∨ ¬ HeadArrived (s.buf.readable ++ chunk)
  | .writable _ _ => True
  | .closed => True

/-- While the connection is up nothing has closed it. -/
def NothingClosed (s : HttpSession S) : Prop :=
  s.conn.connected = true → ∀ e ∈ s.log, e.closes = false

theorem NothingClosed.answers {s s' : HttpSession S} (h : NothingClosed s) (ha : Answers s s') :
    NothingClosed s' := by
  obtain ⟨new, hlog, hconn⟩ := ha
  intro hup e he
  rw [hconn, Bool.and_eq_true, Bool.not_eq_true', List.any_eq_false] at hup
  rw [hlog] at he
  rcases List.mem_append.1 he with hold | hnew
  · exact h hup.1 e hold
  · exact Bool.eq_false_iff.2 (hup.2 e hnew)

/-- The other handlers leave the log alone, and do not connect. -/
theorem nothingClosed_step {s s' : HttpSession S} {ev : ConnEvent} (h : NothingClosed s)
    (hstep : server.step s ev = some s') : NothingClosed s' := by
  cases ev with
  | read chunk t io =>
    obtain ⟨-, hmsg⟩ := Option.ite_none_right_eq_some.1 hstep
    exact NothingClosed.answers (s := { s with buf := s.buf.append chunk }) h
      (server.answers_onMessage hmsg)
  | writable heap w =>
    obtain ⟨-, heq⟩ := Option.ite_none_right_eq_some.1 hstep
    cases heq
    have hconn := connected_eq_of_state_eq (steady_handleWrite s.conn heap w).state
    intro hup
    exact h (hconn.symm.trans hup)
  | closed =>
    obtain ⟨-, heq⟩ := Option.ite_none_right_eq_some.1 hstep
    cases heq
    intro hup
    cases hup

/-- **One event** keeps the log orderly exactly if it comes in time. -/
theorem orderly_step_iff {s s' : HttpSession S} {ev : ConnEvent} (h : NothingClosed s)
    (hlog : Orderly s.log) (hstep : server.step s ev = some s') :
    Orderly s'.log ↔ ComesInTime s ev := by
  cases ev with
  | read chunk t io =>
    obtain ⟨-, hmsg⟩ := Option.ite_none_right_eq_some.1 hstep
    obtain ⟨s₁, v, ctx, hmsg₁, hread, hlogged⟩ :=
      server.onMessage_spec { s with buf := s.buf.append chunk } t io
    obtain rfl := Option.some.inj (hmsg.symm.trans hmsg₁)
    simp only [Buffer.readable_append] at hread
    have hnone : ∀ v', v' ≠ some true → v = v' → ¬ HeadArrived (s.buf.readable ++ chunk) := by
      intro v' hv' hv hhead
      obtain ⟨ctx', rest, hread'⟩ := headArrived_iff.1 hhead
      rw [hread, hv] at hread'
      exact hv' (congrArg Prod.fst hread')
    cases hlogged with
    | wait hwait =>
      refine iff_of_true ?_ (.inr (hnone none (by simp) rfl))
      rw [hwait]
      exact hlog
    | bad b hbad =>
      refine iff_of_true ?_ (.inr (hnone (some false) (by simp) rfl))
      rw [hbad]
      exact hlog.badRequest b
    | served req resp hreq hserved =>
      have hhead : HeadArrived (s.buf.readable ++ chunk) := headArrived_iff.2 ⟨_, _, hread⟩
      rw [hserved]
      constructor
      · intro horderly
        exact .inl (horderly.accepted resp _ (by simp))
      · intro hintime
        have hup : s.conn.connected = true := hintime.resolve_right fun hno => hno hhead
        simp only [hup]
        exact hlog.served (h hup) req resp
  | writable heap w =>
    obtain ⟨-, heq⟩ := Option.ite_none_right_eq_some.1 hstep
    cases heq
    exact iff_of_true hlog trivial
  | closed =>
    obtain ⟨-, heq⟩ := Option.ite_none_right_eq_some.1 hstep
    cases heq
    exact iff_of_true hlog trivial

/-- **When a closing connection is silent.**  From a connection that is up and on which nothing has
happened yet: nothing is dispatched behind a closing answer and every response is accepted,
throughout a run, if and only if no message that comes in when the connection is not connected
completes a request head. -/
theorem closing_silent_iff {s s' : HttpSession S} (hlog : s.log = []) {events : List ConnEvent}
    (hrun : Lts.run server.step s events = some s') :
    (∀ before u, before <+: events → Lts.run server.step s before = some u → Orderly u.log) ↔
      Lts.Along server.step ComesInTime s events := by
  refine Lts.forall_prefix_iff_along (I := NothingClosed)
    (fun s l t hs => server.nothingClosed_step hs) (fun s l t hs => server.orderly_step_iff hs)
    (fun _ e he => ?_) ?_ hrun
  · rw [hlog] at he
    cases he
  · rw [hlog]
    exact orderly_nil

/-- A request after which the server closes. -/
def oldRequest : ConnEvent := .read (ascii "GET / HTTP/1.0\r\n\r\n") 1 accepting

theorem step_oldRequest :
    ∃ s, plain.step (session (Buffer.new 64)) oldRequest = some s ∧
      s.conn.channel.reading = true ∧ s.conn.connected = false ∧ s.buf.readable = [] ∧
      s.log.map HttpEvent.closes = [false, true] := by
  have hstep : (plain.step (session (Buffer.new 64)) oldRequest).map (fun s =>
      (s.conn.channel.reading, s.conn.connected, s.buf.readable, s.log.map HttpEvent.closes)) =
      some (true, false, [], [false, true]) := by decide +kernel
  obtain ⟨s, hs, heq⟩ := Option.map_eq_some_iff.1 hstep
  simp only [Prod.mk.injEq] at heq
  exact ⟨s, hs, heq⟩

/-- A part of a request comes in behind it. -/
theorem closing_silent_part :
    ∃ s, Lts.run plain.step (session (Buffer.new 64))
        [oldRequest, .read (ascii "GET") 2 accepting] = some s ∧ Orderly s.log := by
  obtain ⟨u, hu, hreading, -, hbuf, -⟩ := step_oldRequest
  obtain ⟨s, v, ctx, hs, -⟩ :=
    plain.onMessage_spec { u with buf := u.buf.append (ascii "GET") } 2 accepting
  have hnext : plain.step u (.read (ascii "GET") 2 accepting) = some s := by
    rw [step, if_pos hreading]
    exact hs
  have hrun : Lts.run plain.step (session (Buffer.new 64))
      [oldRequest, .read (ascii "GET") 2 accepting] = some s :=
    Lts.run_cons_eq_some.2 ⟨u, hu, Lts.run_cons_eq_some.2 ⟨s, hnext, rfl⟩⟩
  refine ⟨s, hrun, (plain.closing_silent_iff rfl hrun).2 ?_ _ s (List.prefix_refl _) hrun⟩
  refine (Lts.along_cons_of_step hu).2 ⟨.inl rfl, (Lts.along_cons_of_step hnext).2 ⟨.inr ?_,
    trivial⟩⟩
  intro hhead
  obtain ⟨ctx', rest, hread⟩ := headArrived_iff.1 hhead
  rw [hbuf, List.nil_append, read_fresh_of_search_none rfl] at hread
  cases hread

/-- A whole request comes in behind it: it is dispatched, and its response is dropped. -/
theorem closing_dispatches :
    ∃ s req resp old, Lts.run plain.step (session (Buffer.new 64))
        [oldRequest, .read getRoot.bytes 2 accepting] = some s ∧
      s.log = old ++ [.httpCallback req, .response resp false] ∧
      old.map HttpEvent.closes = [false, true] ∧ ¬ Orderly s.log := by
  obtain ⟨u, hu, hreading, hdown, hbuf, hold⟩ := step_oldRequest
  obtain ⟨s, req, resp, hs, -, hlog, -⟩ :=
    plain.onMessage_head { u with buf := u.buf.append getRoot.bytes } getRoot []
      (by rw [Buffer.readable_append, hbuf, List.nil_append, List.append_nil]) 2 accepting
  have hnext : plain.step u (.read getRoot.bytes 2 accepting) = some s := by
    rw [step, if_pos hreading]
    exact hs
  simp only [hdown] at hlog
  refine ⟨s, req, resp, u.log,
    Lts.run_cons_eq_some.2 ⟨u, hu, Lts.run_cons_eq_some.2 ⟨s, hnext, rfl⟩⟩, hlog, hold,
    fun horderly => ?_⟩
  have haccepted := horderly.accepted resp false (by rw [hlog]; simp)
  cases haccepted

end HttpServer

end TinyNetwork
