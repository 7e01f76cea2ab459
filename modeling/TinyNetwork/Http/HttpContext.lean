import TinyNetwork.Lib.Incremental
import TinyNetwork.Net.Buffer
import TinyNetwork.Http.HttpRequest

/-!
# `class HttpContext` (src/http/HttpContext.h, src/http/HttpContext.cpp)

The request parser.  `parseIter` is the body of the `while (hasMore)` loop of `parseRequest`,
`parseLoop` the loop with a bound on the number of iterations, `parseRequest` the loop with the
bound that suffices whenever the loop ends at all.  In the states `kExpectBody` and `kGotAll` no
branch of the loop does anything, so a call made in such a state does not return; the result is
`none` then.

On the readable bytes of the buffer the loop is a reader in the sense of `Incremental.Reader`
(`lineReader`): it waits without a CRLF, reads a line and goes on, or stops at a bad request line
or at a line without a colon.  `parseRequest_eq_read` says so, and
`parseRequest_incremental` follows from it: the cuts between the chunks of the input do not show.
-/

namespace TinyNetwork

open Search Incremental

inductive HttpRequestParseState
  | kExpectRequestLine
  | kExpectHeaders
  | kExpectBody
  | kGotAll
  deriving DecidableEq

structure HttpContext where
  state : HttpRequestParseState := .kExpectRequestLine
  request : HttpRequest := {}
  deriving DecidableEq

namespace HttpContext

def gotAll (ctx : HttpContext) : Bool := decide (ctx.state = .kGotAll)

/-- `reset()`: `HttpRequest::swap` exchanges every field but the body and the receive time. -/
def reset (ctx : HttpContext) : HttpContext where
  state := .kExpectRequestLine
  request := { body := ctx.request.body, receiveTime := ctx.request.receiveTime }

/-- One iteration of the loop of `parseRequest`: `ok`, `hasMore`, the context and the buffer. -/
def parseIter (receiveTime : TimeStamp) (ok : Bool) (ctx : HttpContext) (buf : Buffer) :
    Bool × Bool × HttpContext × Buffer :=
  match ctx.state with
  | .kExpectRequestLine =>
    match buf.findCRLF with
    | some crlf =>
      match ctx.request.processRequestLine (buf.readable.take crlf) with
      | (true, request) =>
        (true, true, ⟨.kExpectHeaders, request.setReceiveTime receiveTime⟩,
          buf.retrieveUntil (crlf + 2))
      | (false, request) => (false, false, { ctx with request := request }, buf)
    | none => (ok, false, ctx, buf)
  | .kExpectHeaders =>
    match buf.findCRLF with
    | some crlf =>
      match find 58 (buf.readable.take crlf) with
      | (field, _ :: rest) =>
        (ok, true, { ctx with request := ctx.request.addHeader field rest },
          buf.retrieveUntil (crlf + 2))
      | (_, []) => (ok, false, { ctx with state := .kGotAll }, buf.retrieveUntil (crlf + 2))
    | none => (ok, false, ctx, buf)
  | .kExpectBody => (ok, true, ctx, buf)
  | .kGotAll => (ok, true, ctx, buf)

/-- The loop of `parseRequest`, given up after a number of iterations. -/
def parseLoop (receiveTime : TimeStamp) :
    ℕ → Bool → HttpContext → Buffer → Option (Bool × HttpContext × Buffer)
  | 0, _, _, _ => none
  | n + 1, ok, ctx, buf =>
    match parseIter receiveTime ok ctx buf with
    | (ok, true, ctx, buf) => parseLoop receiveTime n ok ctx buf
    | (ok, false, ctx, buf) => some (ok, ctx, buf)

/-- `parseRequest(buf, receiveTime)`: the flag returned, the context and the buffer.  Every
iteration that goes on and makes progress reads a line, so the bound is never the reason for a
result `none`. -/
def parseRequest (ctx : HttpContext) (buf : Buffer) (receiveTime : TimeStamp) :
    Option (Bool × HttpContext × Buffer) :=
  parseLoop receiveTime (buf.readableBytes + 1) true ctx buf

/-- The states in which the loop of `parseRequest` has a branch that reads. -/
def Reading (ctx : HttpContext) : Prop :=
  ctx.state = .kExpectRequestLine ∨ ctx.state = .kExpectHeaders

/-! ### The parser as a reader of bytes -/

/-- What the parser does with the unread bytes. -/
def nextMove (ctx : HttpContext) (xs : Bytes) : Move HttpContext UInt8 Bool :=
  match ctx.state with
  | .kExpectRequestLine =>
    match search kCRLF xs with
    | some crlf =>
      match ctx.request.processRequestLine (xs.take crlf) with
      | (true, request) => .more ⟨.kExpectHeaders, request⟩ (xs.drop (crlf + 2))
      | (false, request) => .stop false { ctx with request := request } xs
    | none => .wait
  | .kExpectHeaders =>
    match search kCRLF xs with
    | some crlf =>
      match find 58 (xs.take crlf) with
      | (field, _ :: rest) =>
        .more { ctx with request := ctx.request.addHeader field rest } (xs.drop (crlf + 2))
      | (_, []) => .stop true { ctx with state := .kGotAll } (xs.drop (crlf + 2))
    | none => .wait
  | .kExpectBody => .wait
  | .kGotAll => .wait

theorem length_kCRLF : kCRLF.length = 2 := by decide

/-- A line read from `xs` is read from any extension of `xs`, and leaves the extension behind. -/
theorem line_append {xs : Bytes} {crlf : ℕ} (h : search kCRLF xs = some crlf) (ys : Bytes) :
    search kCRLF (xs ++ ys) = some crlf ∧ (xs ++ ys).take crlf = xs.take crlf ∧
      (xs ++ ys).drop (crlf + 2) = xs.drop (crlf + 2) ++ ys := by
  have hlen := search_add_length_le h
  rw [length_kCRLF] at hlen
  exact ⟨search_append h ys, List.take_append_of_le_length (by omega),
    List.drop_append_of_le_length hlen⟩

theorem nextMove_append (ctx : HttpContext) (xs ys : Bytes) (h : ctx.nextMove xs ≠ .wait) :
    ctx.nextMove (xs ++ ys) = (ctx.nextMove xs).append ys := by
  unfold nextMove at h ⊢
  cases hs : ctx.state with
  | kExpectRequestLine =>
    cases hc : search kCRLF xs with
    | none => simp [hs, hc] at h
    | some crlf =>
      obtain ⟨h1, h2, h3⟩ := line_append hc ys
      simp only [h1, h2, h3]
      rcases ctx.request.processRequestLine (xs.take crlf) with ⟨_ | _, request⟩ <;> rfl
  | kExpectHeaders =>
    cases hc : search kCRLF xs with
    | none => simp [hs, hc] at h
    | some crlf =>
      obtain ⟨h1, h2, h3⟩ := line_append hc ys
      simp only [h1, h2, h3]
      rcases find 58 (xs.take crlf) with ⟨field, _ | ⟨_, rest⟩⟩ <;> rfl
  | kExpectBody => simp [hs] at h
  | kGotAll => simp [hs] at h

theorem length_lt_of_nextMove {ctx ctx' : HttpContext} {xs rest : Bytes}
    (h : ctx.nextMove xs = .more ctx' rest) : rest.length < xs.length := by
  have hdrop : ∀ crlf, search kCRLF xs = some crlf → (xs.drop (crlf + 2)).length < xs.length := by
    intro crlf hc
    have hlen := search_add_length_le hc
    rw [length_kCRLF] at hlen
    rw [List.length_drop]
    omega
  unfold nextMove at h
  cases hs : ctx.state with
  | kExpectRequestLine =>
    cases hc : search kCRLF xs with
    | none => simp [hs, hc] at h
    | some crlf =>
      rcases hp : ctx.request.processRequestLine (xs.take crlf) with ⟨_ | _, request⟩
      · simp [hs, hc, hp] at h
      · simp only [hs, hc, hp, Move.more.injEq] at h
        rw [← h.2]
        exact hdrop crlf hc
  | kExpectHeaders =>
    cases hc : search kCRLF xs with
    | none => simp [hs, hc] at h
    | some crlf =>
      rcases hp : find 58 (xs.take crlf) with ⟨field, _ | ⟨_, post⟩⟩
      · simp [hs, hc, hp] at h
      · simp only [hs, hc, hp, Move.more.injEq] at h
        rw [← h.2]
        exact hdrop crlf hc
  | kExpectBody => simp [hs] at h
  | kGotAll => simp [hs] at h

/-- The parser as a reader of bytes; the verdict is the flag returned. -/
def lineReader : Reader HttpContext UInt8 Bool where
  next := nextMove
  next_append := nextMove_append
  length_lt := length_lt_of_nextMove

theorem lineReader_next (ctx : HttpContext) (xs : Bytes) :
    lineReader.next ctx xs = ctx.nextMove xs := rfl

/-- A request is rejected at its request line only. -/
theorem gotAll_of_read_false {ctx ctx' : HttpContext} {xs rest : Bytes}
    (h : lineReader.read ctx xs = (some false, ctx', rest)) : ctx'.gotAll = false := by
  obtain ⟨ctx₀, mid, hstop⟩ := Reader.stop_of_read_some h
  rw [lineReader_next] at hstop
  unfold nextMove at hstop
  cases hs : ctx₀.state with
  | kExpectRequestLine =>
    cases hc : search kCRLF mid with
    | none => simp [hs, hc] at hstop
    | some crlf =>
      rcases hp : ctx₀.request.processRequestLine (mid.take crlf) with ⟨_ | _, request⟩
      · simp only [hs, hc, hp, Move.stop.injEq] at hstop
        rw [← hstop.2.1]
        rfl
      · simp [hs, hc, hp] at hstop
  | kExpectHeaders =>
    cases hc : search kCRLF mid with
    | none => simp [hs, hc] at hstop
    | some crlf =>
      rcases hp : find 58 (mid.take crlf) with ⟨field, _ | ⟨_, post⟩⟩ <;>
        simp [hs, hc, hp] at hstop
  | kExpectBody => simp [hs] at hstop
  | kGotAll => simp [hs] at hstop

/-- The context without the receive time, which depends on when a call is made. -/
def untimed (ctx : HttpContext) : HttpContext :=
  { ctx with request := ctx.request.setReceiveTime 0 }

/-- What a call of `parseRequest` has decided: nothing yet, a bad request, or a whole request. -/
def verdict (ok : Bool) (ctx : HttpContext) : Option Bool :=
  if ok then (if ctx.gotAll then some true else none) else some false

/-- Without a CRLF in the buffer the loop ends, and the reader waits. -/
theorem parseIter_wait (t : TimeStamp) {ctx : HttpContext} {buf : Buffer} (h : ctx.Reading)
    (hc : buf.findCRLF = none) :
    parseIter t true ctx buf = (true, false, ctx, buf) ∧
      lineReader.read ctx.untimed buf.readable =
        (verdict true ctx, ctx.untimed, buf.readable) := by
  have hc' : search kCRLF buf.readable = none := hc
  obtain ⟨state, request⟩ := ctx
  rcases h with rfl | rfl
  all_goals
    refine ⟨by simp only [parseIter, hc], Reader.read_of_wait ?_⟩
    simp only [lineReader_next, nextMove, untimed, hc']

/-- The step of the reader is the iteration of the loop, seen on the readable bytes. -/
theorem parseIter_spec (t : TimeStamp) (ctx : HttpContext) (buf : Buffer) (h : ctx.Reading) :
    (∃ ctx' buf', parseIter t true ctx buf = (true, true, ctx', buf') ∧ ctx'.Reading ∧
      buf'.readableBytes < buf.readableBytes ∧
      ctx.untimed.nextMove buf.readable = .more ctx'.untimed buf'.readable) ∨
    (∃ ok ctx' buf', parseIter t true ctx buf = (ok, false, ctx', buf') ∧
      (verdict ok ctx' = none → ctx'.Reading) ∧
      lineReader.read ctx.untimed buf.readable =
        (verdict ok ctx', ctx'.untimed, buf'.readable)) := by
  have hdrop : ∀ crlf, buf.findCRLF = some crlf →
      (buf.retrieveUntil (crlf + 2)).readable = buf.readable.drop (crlf + 2) ∧
      (buf.retrieveUntil (crlf + 2)).readableBytes < buf.readableBytes := by
    intro crlf hc
    have hlen := search_add_length_le hc
    rw [length_kCRLF, Buffer.length_readable] at hlen
    have hr := Buffer.readable_retrieveUntil hlen
    refine ⟨hr, ?_⟩
    rw [← Buffer.length_readable, hr, List.length_drop, Buffer.length_readable]
    omega
  cases hc : buf.findCRLF with
  | none =>
    obtain ⟨hiter, hread⟩ := parseIter_wait t h hc
    exact .inr ⟨true, ctx, buf, hiter, fun _ => h, hread⟩
  | some crlf =>
    have hc' : search kCRLF buf.readable = some crlf := hc
    obtain ⟨hrest, hlt⟩ := hdrop crlf hc
    obtain ⟨state, request⟩ := ctx
    rcases h with rfl | rfl
    · have hrt := HttpRequest.processRequestLine_setReceiveTime request (buf.readable.take crlf) 0
      rcases hp : request.processRequestLine (buf.readable.take crlf) with ⟨_ | _, request'⟩
      · right
        refine ⟨false, ⟨.kExpectRequestLine, request'⟩, buf, by simp only [parseIter, hc, hp],
          fun _ => Or.inl rfl, ?_⟩
        refine Reader.read_of_stop ?_
        simp only [lineReader_next, nextMove, untimed, hc', hrt, hp]
      · left
        refine ⟨⟨.kExpectHeaders, request'.setReceiveTime t⟩, buf.retrieveUntil (crlf + 2),
          by simp only [parseIter, hc, hp], Or.inr rfl, hlt, ?_⟩
        rw [hrest]
        simp only [nextMove, untimed, hc', hrt, hp]
        rfl
    · rcases hp : find 58 (buf.readable.take crlf) with ⟨field, _ | ⟨_, rest⟩⟩
      · right
        refine ⟨true, ⟨.kGotAll, request⟩, buf.retrieveUntil (crlf + 2),
          by simp only [parseIter, hc, hp], (fun h => by cases h), ?_⟩
        refine Reader.read_of_stop ?_
        rw [hrest]
        simp only [lineReader_next, nextMove, untimed, hc', hp]
      · left
        refine ⟨⟨.kExpectHeaders, request.addHeader field rest⟩, buf.retrieveUntil (crlf + 2),
          by simp only [parseIter, hc, hp], Or.inr rfl, hlt, ?_⟩
        rw [hrest]
        simp only [nextMove, untimed, hc', hp]
        rfl

theorem parseLoop_eq_read (t : TimeStamp) (n : ℕ) (ctx : HttpContext) (buf : Buffer)
    (h : ctx.Reading) (hn : buf.readableBytes < n) :
    ∃ ok ctx' buf', parseLoop t n true ctx buf = some (ok, ctx', buf') ∧
      (verdict ok ctx' = none → ctx'.Reading) ∧
      lineReader.read ctx.untimed buf.readable =
        (verdict ok ctx', ctx'.untimed, buf'.readable) := by
  induction n generalizing ctx buf with
  | zero => omega
  | succ n ih =>
    rcases parseIter_spec t ctx buf h with
      ⟨ctx', buf', hiter, hread, hlt, hmove⟩ | ⟨ok, ctx', buf', hiter, hlive, hread⟩
    · obtain ⟨ok, ctx₁, buf₁, hloop, hlive, hread₁⟩ := ih ctx' buf' hread (by omega)
      refine ⟨ok, ctx₁, buf₁, ?_, hlive, ?_⟩
      · rw [parseLoop, hiter]
        exact hloop
      · rw [← hread₁]
        exact Reader.read_of_more hmove
    · refine ⟨ok, ctx', buf', ?_, hlive, hread⟩
      rw [parseLoop, hiter]

/-- **`parseRequest` is the reader.**  From a state in which the parser reads, a call returns, and
its flag, context and unread bytes are those of the reader. -/
theorem parseRequest_eq_read (ctx : HttpContext) (buf : Buffer) (t : TimeStamp) (h : ctx.Reading) :
    ∃ ok ctx' buf', ctx.parseRequest buf t = some (ok, ctx', buf') ∧
      (verdict ok ctx' = none → ctx'.Reading) ∧
      lineReader.read ctx.untimed buf.readable =
        (verdict ok ctx', ctx'.untimed, buf'.readable) :=
  parseLoop_eq_read t _ ctx buf h (Nat.lt_succ_self _)

/-! ### Input that arrives in chunks -/

/-- Append the chunks one at a time and call `parseRequest` after each, until a call returns false
or a whole request is there: the last flag, the context, the buffer and the chunks not fed. -/
def parseChunks (ctx : HttpContext) (buf : Buffer) (ok : Bool) :
    List (Bytes × TimeStamp) →
      Option (Bool × HttpContext × Buffer × List (Bytes × TimeStamp))
  | [] => some (ok, ctx, buf, [])
  | (chunk, receiveTime) :: chunks =>
    match ctx.parseRequest (buf.append chunk) receiveTime with
    | none => none
    | some (ok, ctx, buf) =>
      if !ok || ctx.gotAll then some (ok, ctx, buf, chunks)
      else parseChunks ctx buf ok chunks

theorem verdict_eq_none_iff {ok : Bool} {ctx : HttpContext} :
    verdict ok ctx = none ↔ (!ok || ctx.gotAll) = false := by
  cases ok <;> cases hg : ctx.gotAll <;> simp [verdict, hg]

theorem parseChunks_eq_feed (chunks : List (Bytes × TimeStamp)) (ctx : HttpContext) (buf : Buffer)
    (h : ctx.Reading) :
    ∃ ok ctx' buf' left, ctx.parseChunks buf true chunks = some (ok, ctx', buf', left) ∧
      lineReader.feed ctx.untimed buf.readable (chunks.map Prod.fst) =
        (verdict ok ctx', ctx'.untimed, buf'.readable, left.map Prod.fst) := by
  induction chunks generalizing ctx buf with
  | nil =>
    refine ⟨true, ctx, buf, [], rfl, ?_⟩
    have hg : ctx.gotAll = false := by rcases h with h | h <;> simp [gotAll, h]
    simp [Reader.feed, verdict, hg]
  | cons c chunks ih =>
    obtain ⟨ok, ctx', buf', hp, hlive, hread⟩ := parseRequest_eq_read ctx (buf.append c.1) c.2 h
    rw [Buffer.readable_append] at hread
    cases hv : verdict ok ctx' with
    | none =>
      obtain ⟨ok₁, ctx₁, buf₁, left, hchunks, hfeed⟩ := ih ctx' buf' (hlive hv)
      have hok : ok = true := by
        by_contra hfalse
        simp [verdict, hfalse] at hv
      subst hok
      refine ⟨ok₁, ctx₁, buf₁, left, ?_, ?_⟩
      · rw [parseChunks, hp]
        simp only [verdict_eq_none_iff.1 hv]
        exact hchunks
      · rw [List.map_cons, Reader.feed, hread, hv]
        exact hfeed
    | some v =>
      refine ⟨ok, ctx', buf', chunks, ?_, ?_⟩
      · have hstop : (!ok || ctx'.gotAll) = true := by
          by_contra hgo
          rw [Bool.not_eq_true, ← verdict_eq_none_iff, hv] at hgo
          cases hgo
        rw [parseChunks, hp]
        simp only [hstop, if_true]
      · rw [List.map_cons, Reader.feed, hread, hv]

/-- The verdict determines the flag. -/
theorem ok_eq_of_verdict_eq {ok ok' : Bool} {ctx ctx' : HttpContext}
    (h : verdict ok ctx = verdict ok' ctx') : ok = ok' := by
  cases ok <;> cases ok' <;> cases hg : ctx.gotAll <;> cases hg' : ctx'.gotAll <;>
    simp [verdict, hg, hg'] at h ⊢

/-- **`parseRequest` is incremental.**  From a fresh context and empty buffers, feeding the chunks
one call at a time returns the flag of one call on all of them, ends in the same parse state with
the same request, and leaves the same bytes unread. -/
theorem parseRequest_incremental (b b' : Buffer) (hb : b.readableBytes = 0)
    (hb' : b'.readableBytes = 0) (chunks : List (Bytes × TimeStamp)) (t : TimeStamp) :
    ∃ ok ctx ctx' buf buf' left,
      ({} : HttpContext).parseChunks b true chunks = some (ok, ctx, buf, left) ∧
      ({} : HttpContext).parseRequest (b'.append (chunks.map Prod.fst).flatten) t =
        some (ok, ctx', buf') ∧
      ctx.state = ctx'.state ∧
      ctx.request.method = ctx'.request.method ∧
      ctx.request.version = ctx'.request.version ∧
      ctx.request.path = ctx'.request.path ∧
      ctx.request.query = ctx'.request.query ∧
      ctx.request.headers = ctx'.request.headers ∧
      buf.readable ++ (left.map Prod.fst).flatten = buf'.readable := by
  have hfresh : ({} : HttpContext).Reading := Or.inl rfl
  rw [← Buffer.readable_eq_nil_iff] at hb hb'
  obtain ⟨ok, ctx, buf, left, hchunks, hfeed⟩ := parseChunks_eq_feed chunks {} b hfresh
  obtain ⟨ok', ctx', buf', hone, -, hread⟩ := parseRequest_eq_read {}
    (b'.append (chunks.map Prod.fst).flatten) t hfresh
  have hwait : lineReader.next ({} : HttpContext).untimed b.readable = .wait := by
    rw [hb]
    rfl
  have hall := Reader.feed_eq_read hwait hfeed
  rw [Buffer.readable_append, hb'] at hread
  rw [hb, hread, Prod.mk.injEq, Prod.mk.injEq] at hall
  obtain ⟨hverdict, hctx, hrest⟩ := hall
  obtain rfl := ok_eq_of_verdict_eq hverdict
  have hreq : ctx.request.setReceiveTime 0 = ctx'.request.setReceiveTime 0 :=
    (congrArg HttpContext.request hctx).symm
  simp only [HttpRequest.setReceiveTime, HttpRequest.mk.injEq] at hreq
  obtain ⟨hmethod, hversion, hheaders, hpath, hquery, -⟩ := hreq
  exact ⟨ok', ctx, ctx', buf, buf', left, hchunks, hone, (congrArg HttpContext.state hctx).symm,
    hmethod, hversion, hpath, hquery, hheaders, hrest.symm⟩

/-- Two chunks that cut a request between CR and LF, on fresh buffers of different sizes. -/
theorem parseRequest_incremental_cut :
    ∃ ok ctx ctx' buf buf' left,
      ({} : HttpContext).parseChunks (Buffer.new 4) true
        [(Bytes.ascii "GET / HTTP/1.1\r", 5), (Bytes.ascii "\n\r\n", 6)] =
          some (ok, ctx, buf, left) ∧
      ({} : HttpContext).parseRequest ((Buffer.new 16).append
        (Bytes.ascii "GET / HTTP/1.1\r" ++ Bytes.ascii "\n\r\n")) 7 = some (ok, ctx', buf') ∧
      ctx.state = ctx'.state ∧ ctx.request.path = ctx'.request.path ∧
      buf.readable ++ (left.map Prod.fst).flatten = buf'.readable := by
  obtain ⟨ok, ctx, ctx', buf, buf', left, h1, h2, h3, -, -, h4, -, -, h5⟩ :=
    parseRequest_incremental (Buffer.new 4) (Buffer.new 16) rfl rfl
      [(Bytes.ascii "GET / HTTP/1.1\r", 5), (Bytes.ascii "\n\r\n", 6)] 7
  exact ⟨ok, ctx, ctx', buf, buf', left, h1, h2, h3, h4, h5⟩

end HttpContext

end TinyNetwork
