import TinyNetwork.Http.HttpServer
import TinyNetwork.Http.RequestHead

/-!
# How requests reach the callback

`onMessage` makes a new `HttpContext` for each call, and handles at most one request.

`onMessages_cut_iff`: a request head that arrives in several chunks is served like the whole head
if and only if every cut falls into the request line or its CRLF.  Behind a later cut the lines
already taken from the buffer are forgotten, and a header line is read as a request line.
-/

namespace TinyNetwork

open Bytes Search Incremental HttpContext

/-- The requests handed to the callback, in order. -/
def servedRequests (log : List HttpEvent) : List HttpRequest :=
  log.filterMap fun
    | .httpCallback req => some req
    | _ => none

/-- The callback was invoked once, on a request like `req`, and no 400 was sent. -/
def ServedAs (req : HttpRequest) (log : List HttpEvent) : Prop :=
  (∃ req', servedRequests log = [req'] ∧ req'.method = req.method ∧ req'.version = req.version ∧
    req'.path = req.path ∧ req'.query = req.query ∧ req'.headers = req.headers) ∧
  ∀ b, .badRequest b ∉ log

namespace HttpServer

variable {S : Type} (server : HttpServer S)

/-- What a call adds to the log, from the verdict of the parser. -/
inductive Logged (s s' : HttpSession S) (ctx : HttpContext) : Option Bool → Prop
  | wait (h : s'.log = s.log) : Logged s s' ctx none
  | bad (b : Bool) (h : s'.log = s.log ++ [.badRequest b]) : Logged s s' ctx (some false)
  | served (req : HttpRequest) (resp : HttpResponse)
      (hreq : req.setReceiveTime 0 = ctx.request)
      (h : s'.log = s.log ++ [.httpCallback req, .response resp s.conn.connected]) :
      Logged s s' ctx (some true)

theorem onRequest_log (s : HttpSession S) (req : HttpRequest) (io : Io) :
    (∃ resp, (server.onRequest s req io).log =
      s.log ++ [.httpCallback req, .response resp s.conn.connected]) ∧
    (server.onRequest s req io).buf = s.buf := by
  refine ⟨⟨(server.httpCallback s.user req { closeConnection := closes req }).2, ?_⟩, ?_⟩
  · simp only [onRequest]
    split_ifs <;> simp [HttpSession.record, HttpSession.perform]
  · simp only [onRequest]
    split_ifs <;> rfl

/-- **A call of `onMessage`** does what a fresh parser makes of the unread bytes. -/
theorem onMessage_spec (s : HttpSession S) (t : TimeStamp) (io : Io) :
    ∃ s' v ctx, server.onMessage s t io = some s' ∧
      lineReader.read {} s.buf.readable = (v, ctx, s'.buf.readable) ∧ Logged s s' ctx v := by
  obtain ⟨ok, ctx, buf, hparse, -, hread⟩ :=
    parseRequest_eq_read {} s.buf t (.inl rfl)
  have hfresh : ({} : HttpContext).untimed = {} := rfl
  rw [hfresh] at hread
  cases ok with
  | false =>
    have hgot : ctx.untimed.gotAll = false := gotAll_of_read_false hread
    replace hgot : ctx.gotAll = false := hgot
    refine ⟨onBadRequest { s with buf := buf } io, some false, ctx.untimed, ?_, hread,
      .bad s.conn.connected ?_⟩
    · simp [onMessage, hparse, hgot]
    · simp [onBadRequest, HttpSession.record, HttpSession.perform]
  | true =>
    cases hgot : ctx.gotAll with
    | false =>
      have hv : verdict true ctx = none := by simp [verdict, hgot]
      rw [hv] at hread
      refine ⟨{ s with buf := buf }, none, ctx.untimed, ?_, hread, .wait rfl⟩
      simp [onMessage, hparse, hgot]
    | true =>
      have hv : verdict true ctx = some true := by simp [verdict, hgot]
      rw [hv] at hread
      obtain ⟨⟨resp, hlog⟩, hbuf⟩ := server.onRequest_log { s with buf := buf } ctx.request io
      refine ⟨server.onRequest { s with buf := buf } ctx.request io, some true, ctx.untimed, ?_,
        by rw [hbuf]; exact hread, .served ctx.request resp rfl hlog⟩
      simp [onMessage, hparse, hgot]

/-- Calls of `onMessage` return, and only add to the log. -/
theorem onMessages_log (s : HttpSession S) (chunks : List (Bytes × TimeStamp × Io)) :
    ∃ s', server.onMessages s chunks = some s' ∧ s.log <+: s'.log := by
  induction chunks generalizing s with
  | nil => exact ⟨s, rfl, List.prefix_refl _⟩
  | cons c chunks ih =>
    obtain ⟨u, v, ctx, hu, -, hlog⟩ :=
      server.onMessage_spec { s with buf := s.buf.append c.1 } c.2.1 c.2.2
    obtain ⟨s', hs', hpre⟩ := ih u
    refine ⟨s', by rw [onMessages, hu]; exact hs', List.IsPrefix.trans ?_ hpre⟩
    cases hlog with
    | wait h => rw [h]
    | bad b h => exact ⟨_, h.symm⟩
    | served req resp hreq h => exact ⟨_, h.symm⟩

/-- The bytes of some chunks, joined. -/
def joined (chunks : List (Bytes × TimeStamp × Io)) : Bytes := (chunks.map Prod.fst).flatten

/-- Once the request line is out of the buffer and the head is not complete, the rest of it ends in
a 400. -/
theorem onMessages_lost {chunks : List (Bytes × TimeStamp × Io)} {s : HttpSession S}
    {hs : List HeaderLine} (hnone : search kCRLF s.buf.readable = none)
    (hsplit : s.buf.readable ++ joined chunks = headerBytes hs) :
    ∃ s' b, server.onMessages s chunks = some s' ∧ .badRequest b ∈ s'.log := by
  induction chunks generalizing s with
  | nil =>
    rw [joined, List.map_nil, List.flatten_nil, List.append_nil] at hsplit
    exact absurd (hsplit ▸ hnone) (search_headerBytes_ne_none hs)
  | cons c chunks ih =>
    obtain ⟨u, v, ctx, hu, hread, hlog⟩ :=
      server.onMessage_spec { s with buf := s.buf.append c.1 } c.2.1 c.2.2
    simp only [Buffer.readable_append] at hread
    have hcut : (s.buf.readable ++ c.1) ++ joined chunks = headerBytes hs := by
      rw [← hsplit]
      simp [joined]
    rcases read_fresh_headers hcut with hwait | ⟨ctx', hbad⟩
    · rw [read_fresh_of_search_none hwait, Prod.mk.injEq, Prod.mk.injEq] at hread
      obtain ⟨s', b, hs', hb⟩ := ih (s := u) (by rwa [← hread.2.2]) (by rwa [← hread.2.2])
      exact ⟨s', b, by rw [onMessages, hu]; exact hs', hb⟩
    · rw [hbad, Prod.mk.injEq] at hread
      obtain ⟨s', hs', hpre⟩ := server.onMessages_log u chunks
      cases hlog with
      | wait h => cases hread.1
      | served req resp hreq h => cases hread.1
      | bad b h =>
        refine ⟨s', b, by rw [onMessages, hu]; exact hs', hpre.subset ?_⟩
        rw [h]
        simp

theorem length_requestLine_le (head : RequestHead) :
    head.requestLine.bytes.length + 2 ≤ head.bytes.length := by
  simp only [RequestHead.bytes, List.length_append, length_kCRLF]
  omega

/-- While the request line is incomplete nothing is lost. -/
theorem onMessages_waiting {chunks : List (Bytes × TimeStamp × Io)} {s : HttpSession S}
    (head : RequestHead) (hne : ∀ c ∈ chunks, c.1 ≠ [])
    (hsplit : s.buf.readable ++ joined chunks = head.bytes)
    (hshort : s.buf.readable.length < head.requestLine.bytes.length + 2) :
    ∃ s', server.onMessages s chunks = some s' ∧
      ((s.buf.readable ++ joined chunks.dropLast).length < head.requestLine.bytes.length + 2 →
        ∃ req resp b, req.setReceiveTime 0 = head.request ∧
          s'.log = s.log ++ [.httpCallback req, .response resp b]) ∧
      (head.requestLine.bytes.length + 2 ≤ (s.buf.readable ++ joined chunks.dropLast).length →
        ∃ b, .badRequest b ∈ s'.log) := by
  induction chunks generalizing s with
  | nil =>
    rw [joined, List.map_nil, List.flatten_nil, List.append_nil] at hsplit
    have hlong := length_requestLine_le head
    rw [hsplit] at hshort
    omega
  | cons c chunks ih =>
    obtain ⟨u, v, ctx, hu, hread, hlog⟩ :=
      server.onMessage_spec { s with buf := s.buf.append c.1 } c.2.1 c.2.2
    simp only [Buffer.readable_append] at hread
    have hcut : (s.buf.readable ++ c.1) ++ joined chunks = head.bytes := by
      rw [← hsplit]
      simp [joined]
    by_cases hlast : chunks = []
    · -- the whole head is there
      subst hlast
      rw [joined, List.map_nil, List.flatten_nil, List.append_nil] at hcut
      have hwhole := read_head head []
      rw [List.append_nil] at hwhole
      rw [hcut, hwhole, Prod.mk.injEq, Prod.mk.injEq] at hread
      obtain ⟨rfl, rfl, -⟩ := hread
      cases hlog with
      | served req resp hreq h =>
        refine ⟨u, by rw [onMessages, hu]; rfl, fun _ => ⟨req, resp, _, hreq, h⟩, fun hge => ?_⟩
        simp only [joined, List.dropLast_singleton, List.map_nil, List.flatten_nil,
          List.append_nil] at hge
        omega
    · have hdrop : joined (c :: chunks).dropLast = c.1 ++ joined chunks.dropLast := by
        rw [List.dropLast_cons_of_ne_nil hlast]
        simp [joined]
      have hrest : joined chunks ≠ [] := by
        obtain ⟨d, ds, rfl⟩ := List.exists_cons_of_ne_nil hlast
        have hd := hne d (by simp)
        simp [joined, hd]
      rw [hdrop, ← List.append_assoc]
      have hrun : server.onMessages s (c :: chunks) = server.onMessages u chunks := by
        rw [onMessages, hu]
        rfl
      rw [hrun]
      rcases cut_line head.requestLine.lf_notMem_bytes (by rw [hcut]; rfl) with
        ⟨hlen, hnone⟩ | ⟨p', hp', htail⟩
      · -- still inside the request line
        rw [read_fresh_of_search_none hnone, Prod.mk.injEq, Prod.mk.injEq] at hread
        obtain ⟨rfl, -, hbuf⟩ := hread
        cases hlog with
        | wait h =>
          have hih := ih (s := u) (fun d hd => hne d (List.mem_cons_of_mem _ hd))
            (by rwa [← hbuf]) (by rwa [← hbuf])
          rwa [← hbuf, h] at hih
      · -- the request line is taken, and forgotten
        obtain ⟨ctx', rest, hs', hheaders, hnone, hlost⟩ :=
          read_headers_cut head.requestLine.request htail hrest
        rw [hp', read_requestLine, hheaders, Prod.mk.injEq, Prod.mk.injEq] at hread
        obtain ⟨-, -, hbuf⟩ := hread
        obtain ⟨s', b, hs', hb⟩ := server.onMessages_lost (s := u) (by rwa [← hbuf])
          (by rwa [← hbuf])
        refine ⟨s', hs', fun hlt => ?_, fun _ => ⟨b, hb⟩⟩
        rw [hp'] at hlt
        simp only [List.length_append, length_kCRLF] at hlt
        omega

/-- A log that serves a request with the same fields. -/
theorem servedAs_of_log {req req' : HttpRequest} {resp : HttpResponse} {b : Bool}
    (h : req'.setReceiveTime 0 = req.setReceiveTime 0) :
    ServedAs req [.httpCallback req', .response resp b] := by
  simp only [HttpRequest.setReceiveTime, HttpRequest.mk.injEq] at h
  obtain ⟨hmethod, hversion, hheaders, hpath, hquery, -⟩ := h
  exact ⟨⟨req', rfl, hmethod, hversion, hpath, hquery, hheaders⟩, by simp⟩

/-- **How a head may be cut.**  Delivered in chunks on a fresh connection, a well-formed head is
served like the head in one piece if and only if all chunks but the last lie in the request line
and its CRLF. -/
theorem onMessages_cut_iff (s : HttpSession S) (hlog : s.log = [])
    (hbuf : s.buf.readable = []) (head : RequestHead)
    (chunks : List (Bytes × TimeStamp × Io)) (hne : ∀ c ∈ chunks, c.1 ≠ [])
    (hcut : (chunks.map Prod.fst).flatten = head.bytes) (t : TimeStamp) (io : Io) :
    ∃ cut whole req, server.onMessages s chunks = some cut ∧
      server.onMessages s [(head.bytes, t, io)] = some whole ∧
      servedRequests whole.log = [req] ∧
      (ServedAs req cut.log ↔ ((chunks.dropLast.map Prod.fst).flatten).length <
        head.requestLine.bytes.length + 2) := by
  have hlong := length_requestLine_le head
  obtain ⟨cut, hrun, hserved, hlost⟩ := server.onMessages_waiting (s := s) head hne
    (by rw [hbuf]; exact hcut) (by rw [hbuf]; simp)
  have hone : ∀ c ∈ [(head.bytes, t, io)], c.1 ≠ [] := by
    simpa using List.length_pos_iff.1 (by omega)
  obtain ⟨whole, hrun', hserved', -⟩ := server.onMessages_waiting (s := s) head hone
    (by rw [hbuf]; simp [joined]) (by rw [hbuf]; simp)
  rw [hbuf, List.nil_append] at hserved hlost hserved'
  obtain ⟨req, resp, b, hreq, hwhole⟩ := hserved' (by simp [joined])
  rw [hlog, List.nil_append] at hwhole
  refine ⟨cut, whole, req, hrun, hrun', by rw [hwhole]; rfl, fun hgood => ?_, fun hlt => ?_⟩
  · by_contra hge
    obtain ⟨b, hb⟩ := hlost (not_lt.1 hge)
    exact hgood.2 b hb
  · obtain ⟨req', resp', b', hreq', hcutlog⟩ := hserved hlt
    rw [hcutlog, hlog, List.nil_append]
    exact servedAs_of_log (hreq'.trans hreq.symm)

/-! ### Concrete deliveries -/

/-- `GET / HTTP/1.1` without header lines. -/
def getRoot : RequestHead where
  requestLine :=
    { method := .kGet, target := ascii "/", version := .kHttp11, method_ne := by decide
      version_ne := by decide, space_notMem := by decide, lf_notMem := by decide }
  headers := []

/-- A server whose callback leaves the response as it is. -/
def plain : HttpServer Unit where
  httpCallback _ _ resp := ((), resp)

def accepting : Io := ⟨fun _ => 0, .accepted 0, .accepted 0⟩

/-- A connection just established. -/
def session (buf : Buffer) : HttpSession Unit where
  conn := (TcpConnection.connectEstablished {}).1
  buf := buf
  user := ()

/-- A cut in the request line. -/
theorem onMessages_cut_early :
    ∃ cut whole req, plain.onMessages (session (Buffer.new 64))
        [(ascii "GET /", 1, accepting), (ascii " HTTP/1.1\r\n\r\n", 2, accepting)] = some cut ∧
      plain.onMessages (session (Buffer.new 64)) [(getRoot.bytes, 1, accepting)] = some whole ∧
      servedRequests whole.log = [req] ∧ ServedAs req cut.log := by
  obtain ⟨cut, whole, req, hcut, hwhole, hreq, hiff⟩ :=
    plain.onMessages_cut_iff (session (Buffer.new 64)) rfl rfl getRoot
      [(ascii "GET /", 1, accepting), (ascii " HTTP/1.1\r\n\r\n", 2, accepting)]
      (by decide) (by decide) 1 accepting
  exact ⟨cut, whole, req, hcut, hwhole, hreq, hiff.2 (by decide)⟩

/-- A cut behind the request line: the empty line is taken for a request line. -/
theorem onMessages_cut_late :
    ∃ cut whole req, plain.onMessages (session (Buffer.new 64))
        [(ascii "GET / HTTP/1.1\r\n", 1, accepting), (ascii "\r\n", 2, accepting)] = some cut ∧
      plain.onMessages (session (Buffer.new 64)) [(getRoot.bytes, 1, accepting)] = some whole ∧
      servedRequests whole.log = [req] ∧ cut.log = [.badRequest true] ∧ ¬ ServedAs req cut.log := by
  have hcut : (plain.onMessages (session (Buffer.new 64))
      [(ascii "GET / HTTP/1.1\r\n", 1, accepting), (ascii "\r\n", 2, accepting)]).map
        HttpSession.log = some [.badRequest true] := by decide +kernel
  have hwhole : (plain.onMessages (session (Buffer.new 64)) [(getRoot.bytes, 1, accepting)]).map
      (fun s => (servedRequests s.log).length) = some 1 := by decide +kernel
  obtain ⟨cut, hcut, hlog⟩ := Option.map_eq_some_iff.1 hcut
  obtain ⟨whole, hwhole, hone⟩ := Option.map_eq_some_iff.1 hwhole
  obtain ⟨req, hreq⟩ := List.length_eq_one_iff.1 hone
  refine ⟨cut, whole, req, hcut, hwhole, hreq, hlog, fun hgood => ?_⟩
  exact hgood.2 true (by rw [hlog]; simp)

end HttpServer

end TinyNetwork
