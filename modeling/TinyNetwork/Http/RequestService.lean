import TinyNetwork.Http.ClosingConnection
import TinyNetwork.Http.ContextReset
import TinyNetwork.Http.HeadRoundTrip

/-!
# The server as a service of requests

`Service` is what a connection of `HttpServer` is for: it takes requests, one at a time, threads the
state of the user through `httpCallback_`, and hands the responses to a connection that is still up,
or no longer.  There are no bytes and no buffers in it.

`onMessages_serves`: a client that sends each head after the last one has arrived, cut nowhere
behind its request line, sees that service, from any state in which nothing is left to read.

`onMessages_poisoned`: a line that is no request line is the end of that.  It stays in the buffer,
everything that comes later piles up behind it, and each message is answered by a 400, of which
`send` writes the first.
-/

namespace TinyNetwork

open Bytes Search Incremental HttpContext

/-- A connection without its bytes. -/
structure Service (S : Type) where
  user : S
  up : Bool
  log : List HttpEvent

/-- One request. -/
def Service.handle {S : Type} (server : HttpServer S) (a : Service S) (req : HttpRequest) :
    Service S :=
  let r := server.httpCallback a.user req { closeConnection := HttpServer.closes req }
  { user := r.1
    up := a.up && !r.2.closeConnection
    log := a.log ++ [.httpCallback req, .response r.2 a.up] }

/-- What a session amounts to. -/
def HttpSession.toService {S : Type} (s : HttpSession S) : Service S :=
  ⟨s.user, s.conn.connected, s.log⟩

/-- A head and the chunks in which it arrives: all but the last one lie in the request line and its
CRLF. -/
structure Delivery where
  head : RequestHead
  early : List (Bytes × TimeStamp × Io)
  last : Bytes × TimeStamp × Io
  split : HttpServer.joined early ++ last.1 = head.bytes
  short : (HttpServer.joined early).length < head.requestLine.bytes.length + 2

namespace Delivery

def chunks (d : Delivery) : List (Bytes × TimeStamp × Io) := d.early ++ [d.last]

/-- The request, received when the last chunk came. -/
def request (d : Delivery) : HttpRequest := d.head.request.setReceiveTime d.last.2.1

end Delivery

namespace HttpServer

variable {S : Type} (server : HttpServer S)

theorem onMessages_append (s : HttpSession S) (cs ds : List (Bytes × TimeStamp × Io)) :
    server.onMessages s (cs ++ ds) =
      (server.onMessages s cs).bind fun t => server.onMessages t ds := by
  induction cs generalizing s with
  | nil => rfl
  | cons c cs ih =>
    rw [List.cons_append, onMessages, onMessages, Option.bind_assoc]
    exact congrArg _ (funext fun t => ih t)

/-! ### One request -/

/-- `onRequest` is one step of the service. -/
theorem onRequest_toService (s : HttpSession S) (req : HttpRequest) (io : Io) :
    (server.onRequest s req io).toService = s.toService.handle server req ∧
      (server.onRequest s req io).buf = s.buf := by
  obtain ⟨r, hr⟩ : ∃ r, r = server.httpCallback s.user req { closeConnection := closes req } :=
    ⟨_, rfl⟩
  have hsend := s.conn.connected_sendBuffer (r.2.appendToBuffer (Buffer.new kInitialSize)) io.heap
    io.response
  simp only [onRequest, Service.handle, HttpSession.toService, HttpSession.record,
    HttpSession.perform, ← hr]
  split_ifs with hclose
  · simp [hclose, TcpConnection.connected_shutdown]
  · simp [hclose, hsend]

/-- A fresh parser on a buffer that begins with a head: the time is that of the call. -/
theorem parseRequest_head (buf : Buffer) (head : RequestHead) {rest : Bytes}
    (hbuf : buf.readable = head.bytes ++ rest) (t : TimeStamp) :
    ∃ ctx buf', ({} : HttpContext).parseRequest buf t = some (true, ctx, buf') ∧
      ctx.gotAll = true ∧ ctx.request = head.request.setReceiveTime t ∧ buf'.readable = rest := by
  obtain ⟨ok, ctx, buf', hparse, -, hread⟩ := parseRequest_eq_read {} buf t (.inl rfl)
  have hfresh : ({} : HttpContext).untimed = {} := rfl
  rw [hfresh, hbuf, read_head, Prod.mk.injEq, Prod.mk.injEq] at hread
  obtain ⟨hverdict, huntimed, hrest⟩ := hread
  have hstate : ctx.state = .kGotAll := congrArg HttpContext.state huntimed.symm
  have hok : ok = true := by
    cases ok with
    | true => rfl
    | false => simp [verdict] at hverdict
  subst hok
  -- the call has read the request line
  have hreads : ({} : HttpContext).readsRequestLine buf = true := by
    have hbytes : buf.readable =
        head.requestLine.bytes ++ (kCRLF ++ (headerBytes head.headers ++ rest)) := by
      rw [hbuf, RequestHead.bytes, List.append_assoc, List.append_assoc]
    have hfind : buf.findCRLF = some head.requestLine.bytes.length := by
      rw [Buffer.findCRLF, hbytes]
      exact search_line head.requestLine.lf_notMem_bytes _
    have htake : buf.readable.take head.requestLine.bytes.length = head.requestLine.bytes := by
      rw [hbytes]
      exact List.take_left
    simp only [readsRequestLine, hfind, htake, head.requestLine.processRequestLine_bytes]
  have htime : ctx.request.receiveTime = t := by
    have hcall : call {} (.parseRequest buf t) = some ctx := by
      rw [call, parseLoopChecked_eq]
      rw [parseRequest] at hparse
      rw [hparse]
      rfl
    rw [(call_receiveTime hcall).1, if_pos hreads]
  refine ⟨ctx, buf', hparse, by simp [gotAll, hstate], ?_, hrest.symm⟩
  have hrequest : head.request = ctx.request.setReceiveTime 0 := congrArg HttpContext.request huntimed
  rw [hrequest, ← htime]
  rfl

/-- A head that has arrived is handed to `onRequest`, with the time of the call, and what is behind
it is left to read. -/
theorem onMessage_arrived (s : HttpSession S) (head : RequestHead) {rest : Bytes}
    (hbuf : s.buf.readable = head.bytes ++ rest) (t : TimeStamp) (io : Io) :
    ∃ buf', buf'.readable = rest ∧ server.onMessage s t io =
      some (server.onRequest { s with buf := buf' } (head.request.setReceiveTime t) io) := by
  obtain ⟨ctx, buf', hparse, hgot, hrequest, hrest⟩ := parseRequest_head s.buf head hbuf t
  refine ⟨buf', hrest, ?_⟩
  rw [← hrequest]
  simp [onMessage, hparse, hgot]

/-- That is one step of the service. -/
theorem onMessage_serves (s : HttpSession S) (head : RequestHead)
    (hbuf : s.buf.readable = head.bytes) (t : TimeStamp) (io : Io) :
    ∃ s', server.onMessage s t io = some s' ∧ s'.buf.readable = [] ∧
      s'.toService = s.toService.handle server (head.request.setReceiveTime t) := by
  obtain ⟨buf', hrest, hs'⟩ := server.onMessage_arrived s head
    (by rw [hbuf, List.append_nil]) t io
  obtain ⟨hservice, hkept⟩ := server.onRequest_toService { s with buf := buf' }
    (head.request.setReceiveTime t) io
  exact ⟨_, hs', by rw [hkept, hrest], hservice⟩

/-- Without a CRLF nothing happens. -/
theorem onMessage_waits (s : HttpSession S) (h : search kCRLF s.buf.readable = none)
    (t : TimeStamp) (io : Io) : server.onMessage s t io = some s := by
  have hnone : s.buf.findCRLF = none := h
  simp [onMessage, parseRequest, parseLoop, parseIter, hnone, gotAll]

/-- The chunks in the request line. -/
theorem onMessages_waits {cs : List (Bytes × TimeStamp × Io)} {s : HttpSession S} {line rest : Bytes}
    (hline : 10 ∉ line) (hsplit : s.buf.readable ++ joined cs ++ rest = line ++ kCRLF)
    (hrest : rest ≠ []) :
    ∃ s', server.onMessages s cs = some s' ∧ s'.buf.readable = s.buf.readable ++ joined cs ∧
      s'.toService = s.toService := by
  induction cs generalizing s with
  | nil => exact ⟨s, rfl, by simp [joined], rfl⟩
  | cons c cs ih =>
    have hjoin : joined (c :: cs) = c.1 ++ joined cs := by simp [joined]
    rw [hjoin] at hsplit ⊢
    have hnone : search kCRLF (s.buf.readable ++ c.1) = none := by
      refine search_cut_line hline ⟨joined cs ++ rest, by simpa using hsplit⟩ ?_
      have hlen := congrArg List.length hsplit
      have hpos := List.length_pos_iff.2 hrest
      simp only [List.length_append, length_kCRLF] at hlen ⊢
      omega
    have hu := server.onMessage_waits { s with buf := s.buf.append c.1 }
      (by rwa [Buffer.readable_append]) c.2.1 c.2.2
    obtain ⟨s', hs', hread, hservice⟩ := ih (s := { s with buf := s.buf.append c.1 })
      (by rw [Buffer.readable_append]; simpa using hsplit)
    refine ⟨s', by rw [onMessages, hu]; exact hs', ?_, hservice⟩
    rw [hread, Buffer.readable_append, List.append_assoc]

/-- One delivery. -/
theorem onMessages_delivery (s : HttpSession S) (hbuf : s.buf.readable = []) (d : Delivery) :
    ∃ s', server.onMessages s d.chunks = some s' ∧ s'.buf.readable = [] ∧
      s'.toService = s.toService.handle server d.request := by
  have hline : d.head.requestLine.bytes ++ kCRLF <+: d.head.bytes :=
    ⟨headerBytes d.head.headers, by rw [RequestHead.bytes, List.append_assoc]⟩
  have hlen : (d.head.requestLine.bytes ++ kCRLF).length = d.head.requestLine.bytes.length + 2 := by
    rw [List.length_append, length_kCRLF]
  obtain ⟨rest, hrest⟩ := List.prefix_of_prefix_length_le ⟨d.last.1, d.split⟩ hline
    (hlen ▸ d.short.le)
  have hne : rest ≠ [] := by
    rintro rfl
    have hshort := d.short
    rw [List.append_nil] at hrest
    rw [hrest, hlen] at hshort
    exact lt_irrefl _ hshort
  obtain ⟨u, hu, hread, hservice⟩ := server.onMessages_waits d.head.requestLine.lf_notMem_bytes
    (by rw [hbuf]; exact hrest) hne
  rw [hbuf, List.nil_append] at hread
  obtain ⟨s', hs', hempty, hservice'⟩ := server.onMessage_serves
    { u with buf := u.buf.append d.last.1 } d.head
    (by rw [Buffer.readable_append, hread, d.split]) d.last.2.1 d.last.2.2
  refine ⟨s', ?_, hempty, ?_⟩
  · rw [Delivery.chunks, onMessages_append, hu, Option.bind_some, onMessages, hs']
    rfl
  · rw [hservice', ← hservice]
    rfl

/-- **The server is a service of requests.**  A client that sends heads one after the other, each
cut at most inside its request line, is served each of them once, in order, with the time at which
it was complete; the responses are handed to `send` while the connection is up, up to the first that
closes. -/
theorem onMessages_serves (s : HttpSession S) (hbuf : s.buf.readable = []) (ds : List Delivery) :
    ∃ s', server.onMessages s (ds.flatMap Delivery.chunks) = some s' ∧ s'.buf.readable = [] ∧
      s'.toService = (ds.map Delivery.request).foldl (Service.handle server) s.toService := by
  induction ds generalizing s with
  | nil => exact ⟨s, rfl, hbuf, rfl⟩
  | cons d ds ih =>
    obtain ⟨u, hu, hread, hservice⟩ := server.onMessages_delivery s hbuf d
    obtain ⟨s', hs', hread', hservice'⟩ := ih u hread
    refine ⟨s', ?_, hread', ?_⟩
    · rw [List.flatMap_cons, onMessages_append, hu]
      exact hs'
    · rw [hservice', hservice]
      rfl

/-- `GET / HTTP/1.1`, the line in two chunks. -/
def rootInTwo : Delivery where
  head := getRoot
  early := [(ascii "GET /", 1, accepting)]
  last := (ascii " HTTP/1.1\r\n\r\n", 2, accepting)
  split := by decide
  short := by decide

theorem onMessages_serves_two :
    ∃ s', plain.onMessages (session (Buffer.new 64)) ([rootInTwo, rootInTwo].flatMap
        Delivery.chunks) = some s' ∧ s'.buf.readable = [] ∧
      (servedRequests s'.log).map HttpRequest.receiveTime = [2, 2] := by
  obtain ⟨s', hs', hread, hservice⟩ := plain.onMessages_serves (session (Buffer.new 64))
    (Buffer.readable_new 64) [rootInTwo, rootInTwo]
  refine ⟨s', hs', hread, ?_⟩
  rw [show s'.log = s'.toService.log from rfl, hservice]
  rfl

/-! ### A line that is no request line -/

/-- The first unread line is no request line. -/
def Poisoned (bs : Bytes) : Prop :=
  ∃ line rest, IsLine line ∧ ¬ ValidRequestLine line ∧ bs = line ++ (kCRLF ++ rest)

theorem Poisoned.append {bs : Bytes} (h : Poisoned bs) (more : Bytes) : Poisoned (bs ++ more) := by
  obtain ⟨line, rest, hline, hbad, rfl⟩ := h
  exact ⟨line, rest ++ more, hline, hbad, by simp⟩

/-- The answer to it. -/
def badRequest : Bytes := ascii "HTTP/1.1 400 Bad Request\r\n\r\n"

/-- Between `s` and `t` the 400 was written, or put behind what waits to be written. -/
def SendsBadRequest (s t : HttpSession S) (io : Io) : Prop :=
  if s.conn.writesDirectly then .write badRequest io.badRequest ∈ t.effects
  else t.conn.outputBuffer.readable = s.conn.outputBuffer.readable ++ badRequest

/-- A connection that is up sends the 400. -/
theorem sendsBadRequest (s : HttpSession S) (hup : s.conn.connected = true) (io : Io) :
    SendsBadRequest s (onBadRequest s io) io := by
  have hstate : s.conn.state = .kConnected := by simpa [TcpConnection.connected] using hup
  have hsend : s.conn.send badRequest true io.badRequest =
      s.conn.sendInLoop badRequest io.badRequest := by
    rw [TcpConnection.send, if_pos hstate]
    rfl
  have hopen : s.conn.state ≠ .kDisconnected := by rw [hstate]; decide
  unfold SendsBadRequest
  split_ifs with hdirect
  · have hhead := TcpConnection.head?_sendInLoop hopen hdirect badRequest io.badRequest
    have hmem : .write badRequest io.badRequest ∈ (s.conn.send badRequest true io.badRequest).2 := by
      rw [hsend]
      exact List.mem_of_mem_head? hhead
    exact List.mem_append_left _ (List.mem_append_right _ hmem)
  · have hread := TcpConnection.readable_sendInLoop hopen (Bool.eq_false_iff.2 hdirect) badRequest
      io.badRequest
    rw [← hsend] at hread
    show ((s.conn.send badRequest true io.badRequest).1.shutdown true).1.outputBuffer.readable = _
    rw [TcpConnection.shutdown_outputBuffer, hread]

/-- A message is answered by a 400 and stays unread. -/
theorem onMessage_poisoned (s : HttpSession S) (h : Poisoned s.buf.readable) (t : TimeStamp)
    (io : Io) :
    ∃ s', server.onMessage s t io = some s' ∧ s'.buf.readable = s.buf.readable ∧
      s'.user = s.user ∧ s'.log = s.log ++ [.badRequest s.conn.connected] ∧
      s'.conn.connected = false ∧ (s.conn.connected = true → SendsBadRequest s s' io) ∧
      (s.conn.connected = false → s'.conn = s.conn ∧ s'.effects = s.effects) := by
  obtain ⟨line, rest, hline, hbad, hbuf⟩ := h
  have hinvalid : (({} : HttpRequest).processRequestLine line).1 = false :=
    Bool.eq_false_iff.2 fun hok => hbad (processRequestLine_iff.1 hok)
  have hfind : s.buf.findCRLF = some line.length := by
    rw [Buffer.findCRLF, hbuf]
    exact search_isLine hline rest
  have htake : s.buf.readable.take line.length = line := by
    rw [hbuf]
    exact List.take_left
  have hparse : ∃ request, ({} : HttpContext).parseRequest s.buf t =
      some (false, { request := request }, s.buf) := by
    rcases hp : ({} : HttpRequest).processRequestLine line with ⟨_ | _, request⟩
    · exact ⟨request, by simp only [parseRequest, parseLoop, parseIter, hfind, htake, hp]⟩
    · rw [hp] at hinvalid
      cases hinvalid
  obtain ⟨request, hparse⟩ := hparse
  refine ⟨onBadRequest s io, by simp [onMessage, hparse, gotAll], rfl, rfl, ?_, ?_,
    fun hup => sendsBadRequest s hup io, fun hdown => ?_⟩
  · simp [onBadRequest, HttpSession.record, HttpSession.perform]
  · exact TcpConnection.connected_shutdown _
  · have hstate : s.conn.state ≠ .kConnected := by
      simpa [TcpConnection.connected] using hdown
    simp [onBadRequest, HttpSession.record, HttpSession.perform, TcpConnection.send,
      TcpConnection.shutdown, hstate]

/-- Once the connection is down, messages only add to the log and to the buffer. -/
theorem onMessages_down (cs : List (Bytes × TimeStamp × Io)) {s : HttpSession S}
    (h : Poisoned s.buf.readable) (hdown : s.conn.connected = false) :
    ∃ s', server.onMessages s cs = some s' ∧
      s'.log = s.log ++ List.replicate cs.length (.badRequest false) ∧ s'.user = s.user ∧
      s'.conn = s.conn ∧ s'.effects = s.effects ∧
      s'.buf.readable = s.buf.readable ++ joined cs := by
  induction cs generalizing s with
  | nil => exact ⟨s, rfl, by simp, rfl, rfl, rfl, by simp [joined]⟩
  | cons c cs ih =>
    obtain ⟨u, hu, hread, huser, hlog, hudown, -, hsame⟩ := server.onMessage_poisoned
      { s with buf := s.buf.append c.1 } (by rw [Buffer.readable_append]; exact h.append _) c.2.1
      c.2.2
    rw [Buffer.readable_append] at hread
    obtain ⟨hconn, heffects⟩ := hsame hdown
    obtain ⟨s', hs', hlog', huser', hconn', heffects', hread'⟩ :=
      ih (by rw [hread]; exact h.append _) hudown
    refine ⟨s', by rw [onMessages, hu]; exact hs', ?_, huser'.trans huser, hconn'.trans hconn,
      heffects'.trans heffects, ?_⟩
    · rw [hlog', hlog, hdown, List.length_cons, List.replicate_succ, List.append_assoc]
      rfl
    · rw [hread', hread]
      simp [joined]

/-- **A bad request line is never got rid of.**  From the message on that completes it, every
message is answered by a 400 and the callback is not called; a connection that is up writes the
first of them, or puts it behind what waits, and shuts down, and does nothing more; and every byte
that comes in stays in the buffer. -/
theorem onMessages_poisoned (s : HttpSession S) (c : Bytes × TimeStamp × Io)
    (h : Poisoned (s.buf.readable ++ c.1)) (cs : List (Bytes × TimeStamp × Io)) :
    ∃ u s', server.onMessages s [c] = some u ∧ server.onMessages s (c :: cs) = some s' ∧
      s'.log = s.log ++ .badRequest s.conn.connected ::
        List.replicate cs.length (.badRequest false) ∧
      s'.user = s.user ∧ u.conn.connected = false ∧
      (s.conn.connected = true → SendsBadRequest s u c.2.2) ∧ s'.conn = u.conn ∧
      s'.effects = u.effects ∧
      s'.buf.readable = s.buf.readable ++ joined (c :: cs) := by
  have hfirst := server.onMessage_poisoned { s with buf := s.buf.append c.1 }
    (by rwa [Buffer.readable_append]) c.2.1 c.2.2
  obtain ⟨u, hu, hread, huser, hlog, hdown, hsends, -⟩ := hfirst
  rw [Buffer.readable_append] at hread
  obtain ⟨s', hs', hlog', huser', hconn', heffects', hread'⟩ :=
    server.onMessages_down cs (by rwa [hread]) hdown
  refine ⟨u, s', ?_, by rw [onMessages, hu]; exact hs', ?_, huser'.trans huser, hdown,
    hsends, hconn', heffects', ?_⟩
  · rw [onMessages, hu]
    rfl
  · rw [hlog', hlog, List.append_assoc]
    rfl
  · rw [hread', hread]
    simp [joined]

/-- `FOO` is no request line; a good request behind it is not seen. -/
theorem onMessages_poisoned_foo :
    ∃ s', plain.onMessages (session (Buffer.new 64))
        [(ascii "FOO\r\n", 1, accepting), (getRoot.bytes, 2, accepting)] = some s' ∧
      s'.log = [.badRequest true, .badRequest false] ∧
      s'.buf.readable = ascii "FOO\r\n" ++ getRoot.bytes := by
  have hempty : (session (Buffer.new 64)).buf.readable = [] := Buffer.readable_new 64
  have hbad : ¬ ValidRequestLine (ascii "FOO") := by
    rw [← processRequestLine_iff]
    decide
  have hline : IsLine (ascii "FOO") := isLine_of_notMem (by decide)
  obtain ⟨u, s', -, hs', hlog, -, -, -, -, -, hread⟩ := plain.onMessages_poisoned
    (session (Buffer.new 64)) (ascii "FOO\r\n", 1, accepting)
    ⟨ascii "FOO", [], hline, hbad, by rw [hempty]; decide⟩ [(getRoot.bytes, 2, accepting)]
  refine ⟨s', hs', hlog, ?_⟩
  rw [hread, hempty]
  rfl

end HttpServer

end TinyNetwork
