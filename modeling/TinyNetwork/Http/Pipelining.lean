import TinyNetwork.Http.RequestService

/-!
# Requests that arrive together

A client may send its next request before the answer to the last one has come.  The heads are then
in the input buffer together, and `onMessage` should serve all of them before it returns.

`onMessage_pipelined_iff`: on a fresh connection that is so if no head is there.  With one head, it
is so if and only if the bytes that `send(Buffer *)` takes for the response are the response, and
the peer is not gone.  With more of them it is not so: `onMessage` handles one request and returns,
and the next head is left in the buffer.
-/

namespace TinyNetwork

open Bytes Search Incremental HttpContext
open TcpConnection (Effect)

namespace HttpSession

variable {S : Type}

/-- The output of the connection: what `::write` took, and what waits in `outputBuffer_`. -/
def sent (s : HttpSession S) : Bytes :=
  s.effects.flatMap Effect.accepted ++ s.conn.outputBuffer.readable

/-- The connection is up, and no request has come yet. -/
structure Fresh (s : HttpSession S) : Prop where
  connected : s.conn.connected = true
  idle : s.conn.channel.isWriting = false
  sent : s.sent = []
  log : s.log = []

/-- All of `heads`, received at `t`, were served: the callback was invoked on these requests, in
order, each answer was handed to the connection while it was up, the output is the answers and
nothing else, and the buffer is empty. -/
def Served (s : HttpSession S) (heads : List RequestHead) (t : TimeStamp) : Prop :=
  ∃ answers : List (HttpRequest × HttpResponse),
    s.log = answers.flatMap (fun a => [.httpCallback a.1, .response a.2 true]) ∧
    answers.map Prod.fst = heads.map (fun head => head.request.setReceiveTime t) ∧
    s.sent = answers.flatMap (fun a => a.2.bytes) ∧ s.buf.readable = []

theorem Fresh.writesDirectly {s : HttpSession S} (hs : s.Fresh) :
    s.conn.writesDirectly = true := by
  have hnil : s.conn.outputBuffer.readable = [] := (List.append_eq_nil_iff.1 hs.sent).2
  simp [TcpConnection.writesDirectly, hs.idle, (Buffer.readable_eq_nil_iff _).1 hnil]

theorem Fresh.accepted {s : HttpSession S} (hs : s.Fresh) :
    s.effects.flatMap Effect.accepted = [] :=
  (List.append_eq_nil_iff.1 hs.sent).1

theorem Fresh.setBuf {s : HttpSession S} (hs : s.Fresh) (buf : Buffer) :
    Fresh { s with buf := buf } :=
  ⟨hs.connected, hs.idle, hs.sent, hs.log⟩

end HttpSession

namespace HttpServer

variable {S : Type} (server : HttpServer S)

/-- What the callback answers to a request. -/
def answer (user : S) (req : HttpRequest) : HttpResponse :=
  (server.httpCallback user req { closeConnection := closes req }).2

/-- The bytes that `send(Buffer *)` takes for a response, those from `beginWrite()` on. -/
def takenFor (resp : HttpResponse) (heap : Heap) : Bytes :=
  let buf := resp.appendToBuffer (Buffer.new kInitialSize)
  buf.bytesAt heap buf.writerIndex buf.readableBytes

/-- `onRequest` on a fresh connection. -/
theorem onRequest_fresh {s : HttpSession S} (hs : s.Fresh) (req : HttpRequest) (io : Io) :
    (server.onRequest s req io).log =
        [.httpCallback req, .response (server.answer s.user req) true] ∧
      (server.onRequest s req io).sent =
        if io.response.fatal then [] else takenFor (server.answer s.user req) io.heap := by
  have hstate : s.conn.state = .kConnected := by
    simpa [TcpConnection.connected] using hs.connected
  have hopen : s.conn.state ≠ .kDisconnected := by rw [hstate]; decide
  have hsend := TcpConnection.sendInLoop_direct hopen hs.writesDirectly
    (takenFor (server.answer s.user req) io.heap) io.response
  have hcall : (s.conn.sendBuffer ((server.answer s.user req).appendToBuffer
      (Buffer.new kInitialSize)) io.heap true io.response).1 =
        s.conn.sendInLoop (takenFor (server.answer s.user req) io.heap) io.response := by
    rw [TcpConnection.sendBuffer, if_pos hstate, if_pos rfl]
    rfl
  rw [answer] at hcall hsend
  rw [answer, ← hsend]
  simp only [onRequest, HttpSession.record, HttpSession.perform, hs.connected, hcall]
  split_ifs with hclose
  · -- the shutdown behind the answer writes nothing
    exact ⟨by simp [hs.log], by simp [HttpSession.sent, hs.accepted]⟩
  · exact ⟨by simp [hs.log], by simp [HttpSession.sent, hs.accepted]⟩

/-- What the first of several heads leads to. -/
theorem onMessage_first {s : HttpSession S} (hs : s.Fresh) {head : RequestHead}
    {heads : List RequestHead} (hbuf : s.buf.readable = (head :: heads).flatMap RequestHead.bytes)
    (t : TimeStamp) (io : Io) :
    ∃ s', server.onMessage s t io = some s' ∧
      s'.log = [.httpCallback (head.request.setReceiveTime t),
        .response (server.answer s.user (head.request.setReceiveTime t)) true] ∧
      s'.sent = (if io.response.fatal then []
        else takenFor (server.answer s.user (head.request.setReceiveTime t)) io.heap) ∧
      s'.buf.readable = heads.flatMap RequestHead.bytes := by
  rw [List.flatMap_cons] at hbuf
  obtain ⟨buf', hrest, hs'⟩ := server.onMessage_arrived s head hbuf t io
  obtain ⟨hlog, hsent⟩ := server.onRequest_fresh (hs.setBuf buf') (head.request.setReceiveTime t) io
  have hkept := (server.onRequest_toService { s with buf := buf' }
    (head.request.setReceiveTime t) io).2
  exact ⟨_, hs', hlog, hsent, by rw [hkept, hrest]⟩

/-- **Heads that arrive together** on a fresh connection are all served before `onMessage` returns
if and only if there is none of them, or one, whose response is what lies behind the writer index of
its buffer, and the peer is not gone. -/
theorem onMessage_pipelined_iff (s : HttpSession S) (hs : s.Fresh) (heads : List RequestHead)
    (hbuf : s.buf.readable = heads.flatMap RequestHead.bytes) (t : TimeStamp) (io : Io) :
    ∃ s', server.onMessage s t io = some s' ∧
      (s'.Served heads t ↔ heads = [] ∨ ∃ head, heads = [head] ∧ io.response.fatal = false ∧
        takenFor (server.answer s.user (head.request.setReceiveTime t)) io.heap =
          (server.answer s.user (head.request.setReceiveTime t)).bytes) := by
  cases heads with
  | nil =>
    have hwait := server.onMessage_waits s (by rw [hbuf]; rfl) t io
    exact ⟨s, hwait, fun _ => .inl rfl, fun _ => ⟨[], hs.log, rfl, hs.sent, hbuf⟩⟩
  | cons head heads =>
    obtain ⟨s', hs', hlog, hsent, hrest⟩ := server.onMessage_first hs hbuf t io
    refine ⟨s', hs', ?_, ?_⟩
    · rintro ⟨answers, hlog', hrequests, hsent', hempty⟩
      -- two calls in the log are one answer, so there is one head
      rw [hlog] at hlog'
      obtain _ | ⟨⟨req, resp⟩, _ | ⟨b, answers⟩⟩ := answers
      · cases hlog'
      · have hone : heads = [] := by simpa using congrArg List.length hrequests
        subst hone
        simp only [List.flatMap_cons, List.flatMap_nil, List.append_nil, List.cons.injEq,
          HttpEvent.httpCallback.injEq, HttpEvent.response.injEq, and_true] at hlog' hsent'
        obtain ⟨-, rfl⟩ := hlog'
        rw [hsent] at hsent'
        cases hfatal : io.response.fatal with
        | true =>
          rw [hfatal, if_pos rfl] at hsent'
          exact absurd hsent'.symm (HttpResponse.bytes_ne_nil _)
        | false =>
          rw [hfatal, if_neg Bool.false_ne_true] at hsent'
          exact .inr ⟨head, rfl, rfl, hsent'⟩
      · have hlen := congrArg List.length hlog'
        simp at hlen
    · rintro (hnil | ⟨head', hone, hfatal, htaken⟩)
      · cases hnil
      · obtain ⟨rfl, rfl⟩ := List.cons.inj hone
        rw [hfatal, if_neg Bool.false_ne_true, htaken] at hsent
        refine ⟨[(_, server.answer s.user (head.request.setReceiveTime t))], hlog, rfl, ?_, hrest⟩
        rw [hsent, List.flatMap_singleton]

/-- Where the printed response fills the vector, `send` takes the memory behind the vector. -/
theorem takenFor_of_full {resp : HttpResponse} {heap : Heap}
    (hfull : (resp.appendToBuffer (Buffer.new kInitialSize)).writerIndex =
      (resp.appendToBuffer (Buffer.new kInitialSize)).buffer.length)
    (hheap : ∀ i, heap i = resp.bytes.getD i 0) : takenFor resp heap = resp.bytes := by
  have hlen : (resp.appendToBuffer (Buffer.new kInitialSize)).readableBytes = resp.bytes.length := by
    rw [← Buffer.length_readable, HttpResponse.readable_appendToBuffer, Buffer.readable_new,
      List.nil_append]
  refine List.ext_getElem (by simp [takenFor, hlen]) fun i _ hi => ?_
  simp [takenFor, Buffer.bytesAt, Buffer.byteAt, hfull, hheap, hi]

/-- A server with a status message that does not fit into the initial buffer: each further piece
makes the vector just large enough. -/
def talkative : HttpServer Unit where
  httpCallback _ _ resp := ((), resp.setStatusMessage (List.replicate 1100 97))

/-- The memory behind the vector happens to hold the response. -/
def repeating : Io :=
  ⟨fun i => (talkative.answer () (getRoot.request.setReceiveTime 1)).bytes.getD i 0,
    .accepted 0, .accepted 0⟩

theorem onMessage_pipelined_one :
    ∃ s', talkative.onMessage (session ((Buffer.new 64).append getRoot.bytes)) 1 repeating =
        some s' ∧ s'.Served [getRoot] 1 := by
  obtain ⟨s', hs', hiff⟩ := talkative.onMessage_pipelined_iff
    (session ((Buffer.new 64).append getRoot.bytes)) ⟨rfl, rfl, by decide, rfl⟩ [getRoot]
    (by decide) 1 repeating
  exact ⟨s', hs', hiff.2 (.inr ⟨getRoot, rfl, rfl,
    takenFor_of_full (by decide +kernel) fun _ => rfl⟩)⟩

/-- Two heads: the second one stays in the buffer.  One head: the 58 bytes sent are not the
response. -/
theorem onMessage_pipelined_two :
    (∃ s', plain.onMessage (session ((Buffer.new 64).append (getRoot.bytes ++ getRoot.bytes))) 1
        accepting = some s' ∧ s'.buf.readable = getRoot.bytes ∧ ¬ s'.Served [getRoot, getRoot] 1) ∧
    ∃ s', plain.onMessage (session ((Buffer.new 64).append getRoot.bytes)) 1 accepting = some s' ∧
      s'.sent = List.replicate 58 0 ∧ ¬ s'.Served [getRoot] 1 := by
  constructor
  · have hrun : (plain.onMessage (session ((Buffer.new 64).append
        (getRoot.bytes ++ getRoot.bytes))) 1 accepting).map (fun s => s.buf.readable) =
          some getRoot.bytes := by decide +kernel
    obtain ⟨s', hs', hrest⟩ := Option.map_eq_some_iff.1 hrun
    refine ⟨s', hs', hrest, ?_⟩
    rintro ⟨answers, -, -, -, hempty⟩
    rw [hrest] at hempty
    exact absurd hempty (by decide)
  · have hrun : (plain.onMessage (session ((Buffer.new 64).append getRoot.bytes)) 1
        accepting).map HttpSession.sent = some (List.replicate 58 0) := by decide +kernel
    obtain ⟨s', hs', hsent⟩ := Option.map_eq_some_iff.1 hrun
    refine ⟨s', hs', hsent, ?_⟩
    rintro ⟨answers, -, hrequests, hsent', -⟩
    obtain ⟨a, rfl⟩ := List.length_eq_one_iff.1 (by simpa using congrArg List.length hrequests)
    have hhead := a.2.head?_bytes
    rw [List.flatMap_singleton] at hsent'
    rw [← hsent', hsent] at hhead
    exact absurd hhead (by decide)

end HttpServer

end TinyNetwork
