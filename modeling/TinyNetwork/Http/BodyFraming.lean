import TinyNetwork.Http.RequestDelivery

/-!
# Requests with a body

A `FramedRequest` is a head with a `Content-Length` and a body of that length.  The parser has a
state for the body (`kExpectBody`) but never enters it: a head is all it reads of a request, and
the body stays in the buffer.

`onMessage_body_iff`: the next request line is taken from behind the body if and only if there is
no body.  `onMessage_body_served`: a body that reads like a request is served like one.
-/

namespace TinyNetwork

open Bytes Search Incremental HttpContext

structure FramedRequest where
  head : RequestHead
  body : Bytes
  contentLength : head.request.getHeader (ascii "Content-Length") = decimal body.length

/-- The bytes from which the next call takes a request line, once `later` has arrived. -/
def HttpSession.requestLineFrom {S : Type} (s : HttpSession S) (later : Bytes) : Bytes :=
  s.buf.readable ++ later

namespace HttpServer

variable {S : Type} (server : HttpServer S)

/-- A head is handled as soon as it is there, and what arrived behind it stays unread. -/
theorem onMessage_head (s : HttpSession S) (head : RequestHead) (tail : Bytes)
    (hbuf : s.buf.readable = head.bytes ++ tail) (t : TimeStamp) (io : Io) :
    ∃ s' req resp, server.onMessage s t io = some s' ∧ req.setReceiveTime 0 = head.request ∧
      s'.log = s.log ++ [.httpCallback req, .response resp s.conn.connected] ∧
      s'.buf.readable = tail := by
  obtain ⟨s', v, ctx, hs', hread, hlogged⟩ := server.onMessage_spec s t io
  rw [hbuf, read_head, Prod.mk.injEq, Prod.mk.injEq] at hread
  obtain ⟨rfl, rfl, hrest⟩ := hread
  cases hlogged with
  | served req resp hreq h => exact ⟨s', req, resp, hs', hreq, h, hrest.symm⟩

/-- **Bodies are not skipped.**  Let a request be handled when `tail` has arrived behind its head
and `later` is still to come.  The next request line is taken from the bytes behind the body if and
only if the body is empty. -/
theorem onMessage_body_iff (s : HttpSession S) (req : FramedRequest) (r tail later : Bytes)
    (hbuf : s.buf.readable = req.head.bytes ++ tail) (hsplit : tail ++ later = req.body ++ r)
    (t : TimeStamp) (io : Io) :
    ∃ s', server.onMessage s t io = some s' ∧
      (∃ q resp, q.setReceiveTime 0 = req.head.request ∧
        s'.log = s.log ++ [.httpCallback q, .response resp s.conn.connected]) ∧
      (s'.requestLineFrom later = r ↔ req.body.length = 0) := by
  obtain ⟨s', q, resp, hs', hq, hlog, hrest⟩ := server.onMessage_head s req.head tail hbuf t io
  refine ⟨s', hs', ⟨q, resp, hq, hlog⟩, ?_⟩
  rw [HttpSession.requestLineFrom, hrest, hsplit, List.length_eq_zero_iff]
  exact List.append_left_eq_self

/-- A body that begins with a head is served as a request of its own. -/
theorem onMessage_body_served (s : HttpSession S) (req : FramedRequest) (inner : RequestHead)
    (rest : Bytes) (hbody : req.body = inner.bytes ++ rest)
    (hbuf : s.buf.readable = req.head.bytes ++ req.body) (t t' : TimeStamp) (io io' : Io) :
    ∃ s' s'' q resp, server.onMessage s t io = some s' ∧ server.onMessage s' t' io' = some s'' ∧
      q.setReceiveTime 0 = inner.request ∧
      s''.log = s'.log ++ [.httpCallback q, .response resp s'.conn.connected] := by
  obtain ⟨s', -, -, hs', -, -, hrest⟩ := server.onMessage_head s req.head req.body hbuf t io
  rw [hbody] at hrest
  obtain ⟨s'', q, resp, hs'', hq, hlog, -⟩ := server.onMessage_head s' inner rest hrest t' io'
  exact ⟨s', s'', q, resp, hs', hs'', hq, hlog⟩

/-! ### Concrete requests -/

/-- `POST / HTTP/1.1` with the `Content-Length` of its body. -/
def postRoot (body : Bytes) (length : Bytes) (hlf : 10 ∉ length)
    (h : HttpRequest.headerValue (32 :: length) = decimal body.length) : FramedRequest where
  head :=
    { requestLine := { getRoot.requestLine with method := .kPost, method_ne := by decide }
      headers :=
        [{ name := ascii "Content-Length", rest := 32 :: length, colon_notMem := by decide
           space_notMem := by decide, lf_notMem_name := by decide
           lf_notMem_rest := by simpa using hlf }] }
  body := body
  contentLength := by
    rw [← h]
    simp [HttpRequest.getHeader, RequestHead.request, HttpRequest.addHeader]

/-- Without a body, the next request line comes from behind the head. -/
theorem onMessage_body_empty :
    ∃ s', plain.onMessage (session ((Buffer.new 64).append
        ((postRoot [] (ascii "0") (by decide) (by decide)).head.bytes ++ getRoot.bytes))) 1
        accepting = some s' ∧
      s'.requestLineFrom [] = getRoot.bytes := by
  obtain ⟨s', hs', -, hiff⟩ := plain.onMessage_body_iff
    (session ((Buffer.new 64).append
      ((postRoot [] (ascii "0") (by decide) (by decide)).head.bytes ++ getRoot.bytes)))
    (postRoot [] (ascii "0") (by decide) (by decide)) getRoot.bytes getRoot.bytes []
    (by rw [session, Buffer.readable_append, Buffer.readable_new, List.nil_append]) rfl 1 accepting
  exact ⟨s', hs', hiff.2 rfl⟩

/-- The body `GET / HTTP/1.1` and an empty line, of 18 bytes, is taken for a second request. -/
theorem onMessage_body_as_request :
    ∃ s' s'', plain.onMessage (session ((Buffer.new 64).append
        ((postRoot getRoot.bytes (ascii "18") (by decide) (by decide)).head.bytes ++
          getRoot.bytes))) 1 accepting = some s' ∧
      s'.requestLineFrom [] ≠ [] ∧ plain.onMessage s' 2 accepting = some s'' ∧
      (servedRequests s''.log).map HttpRequest.method = [.kPost, .kGet] := by
  obtain ⟨s', q, resp, hs', hq, hlog, hrest⟩ := plain.onMessage_head
    (session ((Buffer.new 64).append
      ((postRoot getRoot.bytes (ascii "18") (by decide) (by decide)).head.bytes ++
        getRoot.bytes)))
    (postRoot getRoot.bytes (ascii "18") (by decide) (by decide)).head getRoot.bytes
    (by rw [session, Buffer.readable_append, Buffer.readable_new, List.nil_append]) 1 accepting
  obtain ⟨s'', q', resp', hs'', hq', hlog', -⟩ := plain.onMessage_head s' getRoot []
    (by rw [hrest, List.append_nil]) 2 accepting
  have hpost : q.method = .kPost := congrArg HttpRequest.method hq
  have hget : q'.method = .kGet := congrArg HttpRequest.method hq'
  refine ⟨s', s'', hs', ?_, hs'', ?_⟩
  · rw [HttpSession.requestLineFrom, hrest]
    decide
  · rw [hlog', hlog]
    simp [servedRequests, session, hpost, hget]

end HttpServer

end TinyNetwork
