import TinyNetwork.Http.ParseTermination

/-!
# The context after `reset`

`HttpRequest::swap` leaves out `body_`, which is never set, and `receiveTime_`.  Apart from the
receive time a context that is reset cannot be told from a new one, whatever is called afterwards
(`reset_untimed`): that is a comparison of two runs, call by call.

`reset_fresh_iff`: with the receive time it cannot be told from a new one if and only if the last
call that read a valid request line, if there was one, was given the time 0.
-/

namespace TinyNetwork

open Lts

namespace HttpRequest

/-- `swap(that)`: both requests afterwards. -/
def swap (r that : HttpRequest) : HttpRequest × HttpRequest :=
  ({ that with body := r.body, receiveTime := r.receiveTime },
    { r with body := that.body, receiveTime := that.receiveTime })

end HttpRequest

namespace HttpContext

theorem reset_eq_swap (ctx : HttpContext) :
    ctx.reset = ⟨.kExpectRequestLine, (ctx.request.swap {}).1⟩ := rfl

/-- What the owner of a context can see: `gotAll()` and the getters of `request()`. -/
def shown (ctx : HttpContext) :
    Bool × HttpRequest.Method × HttpRequest.Version × Bytes × Bytes × HeaderMap × TimeStamp :=
  (ctx.gotAll, ctx.request.method, ctx.request.version, ctx.request.path, ctx.request.query,
    ctx.request.headers, ctx.request.receiveTime)

/-- The same calls show the same, at once and after any number of them. -/
def Indistinguishable (a b : HttpContext) : Prop :=
  ∀ calls : List Call, (run call a calls).map shown = (run call b calls).map shown

/-- A call of `parseRequest` reads a valid request line. -/
def readsRequestLine (ctx : HttpContext) (buf : Buffer) : Bool :=
  match ctx.state, buf.findCRLF with
  | .kExpectRequestLine, some crlf =>
    (ctx.request.processRequestLine (buf.readable.take crlf)).1
  | _, _ => false

/-- The time given to such a call. -/
def requestTimes (ctx : HttpContext) : Call → List TimeStamp
  | .parseRequest buf receiveTime => if ctx.readsRequestLine buf then [receiveTime] else []
  | .reset => []

/-! ### Two contexts that differ in the receive time -/

theorem reading_of_untimed {a b : HttpContext} (h : a.untimed = b.untimed) (ha : a.Reading) :
    b.Reading := by
  have hstate : a.untimed.state = b.untimed.state := congrArg HttpContext.state h
  exact ha.imp hstate.symm.trans hstate.symm.trans

theorem gotAll_of_untimed {a b : HttpContext} (h : a.untimed = b.untimed) :
    a.gotAll = b.gotAll := by
  have hgot : a.untimed.gotAll = b.untimed.gotAll := congrArg HttpContext.gotAll h
  exact hgot

/-- A call keeps the difference at that. -/
theorem call_untimed {a b : HttpContext} (ha : a.Reading ∨ a.gotAll = true)
    (h : a.untimed = b.untimed) (c : Call) :
    (call a c).map untimed = (call b c).map untimed := by
  cases c with
  | reset =>
    have hbody : a.request.body = b.request.body := congrArg (fun ctx => ctx.request.body) h
    simp [call, reset, untimed, HttpRequest.setReceiveTime, hbody]
  | parseRequest buf t =>
    rw [call, call, parseLoopChecked_eq, parseLoopChecked_eq]
    rcases ha with ha | ha
    · obtain ⟨ok, a', buf', hpa, -, hreada⟩ := parseRequest_eq_read a buf t ha
      obtain ⟨ok', b', buf'', hpb, -, hreadb⟩ :=
        parseRequest_eq_read b buf t (reading_of_untimed h ha)
      rw [parseRequest] at hpa hpb
      rw [hpa, hpb]
      rw [h, hreadb] at hreada
      simp only [Prod.mk.injEq] at hreada
      exact congrArg some hreada.2.1.symm
    · rw [parseLoop_spins t _ true buf ha,
        parseLoop_spins t _ true buf ((gotAll_of_untimed h).symm.trans ha)]

/-- So do all calls. -/
theorem run_untimed {a b : HttpContext} (ha : a.Reading ∨ a.gotAll = true)
    (h : a.untimed = b.untimed) (calls : List Call) :
    (run call a calls).map untimed = (run call b calls).map untimed := by
  induction calls generalizing a b with
  | nil => exact congrArg some h
  | cons c calls ih =>
    have hcall := call_untimed ha h c
    rw [run_cons, run_cons]
    cases hca : call a c with
    | none =>
      rw [hca, Option.map_none, eq_comm, Option.map_eq_none_iff] at hcall
      rw [hcall]
    | some a' =>
      rw [hca, Option.map_some, eq_comm, Option.map_eq_some_iff] at hcall
      obtain ⟨b', hcb, hb'⟩ := hcall
      rw [hcb]
      exact ih (reading_or_gotAll_call ha hca) hb'.symm

/-- Apart from the receive time, a context that is reset goes the way of a new one. -/
theorem reset_untimed {ctx : HttpContext} (hbody : ctx.request.body = []) (calls : List Call) :
    (run call ctx.reset calls).map untimed = (run call {} calls).map untimed := by
  refine run_untimed (.inl (.inl rfl)) ?_ calls
  simp [reset, untimed, HttpRequest.setReceiveTime, hbody]

/-! ### The receive time -/

/-- A request line sets neither the receive time nor the body. -/
theorem processRequestLine_keeps (r : HttpRequest) (line : Bytes) :
    (r.processRequestLine line).2.receiveTime = r.receiveTime ∧
      (r.processRequestLine line).2.body = r.body := by
  unfold HttpRequest.processRequestLine
  rcases find 32 line with ⟨m, _ | ⟨sp, rest⟩⟩
  · exact ⟨rfl, rfl⟩
  · simp only [HttpRequest.setMethod]
    cases decide (HttpRequest.Method.ofBytes m ≠ .kInvalid) with
    | false => exact ⟨rfl, rfl⟩
    | true =>
      rcases find 32 rest with ⟨target, _ | ⟨sp', version⟩⟩
      · exact ⟨rfl, rfl⟩
      · simp only
        rcases find 63 target with ⟨path, _ | ⟨qm, query⟩⟩ <;> simp only <;> split_ifs <;>
          exact ⟨rfl, rfl⟩

/-- Nor does the loop past the request line. -/
theorem parseIter_keeps (t : TimeStamp) (ok : Bool) {ctx : HttpContext} (buf : Buffer)
    (h : ctx.state ≠ .kExpectRequestLine) :
    (parseIter t ok ctx buf).2.2.1.state ≠ .kExpectRequestLine ∧
      (parseIter t ok ctx buf).2.2.1.request.receiveTime = ctx.request.receiveTime ∧
      (parseIter t ok ctx buf).2.2.1.request.body = ctx.request.body := by
  unfold parseIter
  cases hs : ctx.state with
  | kExpectRequestLine => exact absurd hs h
  | kExpectHeaders =>
    cases buf.findCRLF with
    | none => exact ⟨h, rfl, rfl⟩
    | some crlf =>
      simp only
      rcases find 58 (buf.readable.take crlf) with ⟨field, _ | ⟨b, rest⟩⟩
      all_goals exact ⟨HttpRequestParseState.noConfusion, rfl, rfl⟩
  | kExpectBody => exact ⟨h, rfl, rfl⟩
  | kGotAll => exact ⟨h, rfl, rfl⟩

theorem parseLoop_keeps {t : TimeStamp} {n : ℕ} {ok : Bool} {ctx : HttpContext} {buf : Buffer}
    (h : ctx.state ≠ .kExpectRequestLine) {r : Bool × HttpContext × Buffer}
    (hloop : parseLoop t n ok ctx buf = some r) :
    r.2.1.request.receiveTime = ctx.request.receiveTime ∧
      r.2.1.request.body = ctx.request.body := by
  induction n generalizing ok ctx buf with
  | zero => cases hloop
  | succ n ih =>
    have hkeeps := parseIter_keeps t ok buf h
    rw [parseLoop] at hloop
    rcases hiter : parseIter t ok ctx buf with ⟨ok₁, _ | _, ctx₁, buf₁⟩
    all_goals
      rw [hiter] at hkeeps hloop
      obtain ⟨hstate, htime, hbody⟩ := hkeeps
    · cases hloop
      exact ⟨htime, hbody⟩
    · obtain ⟨htime', hbody'⟩ := ih hstate hloop
      exact ⟨htime'.trans htime, hbody'.trans hbody⟩

/-- **One call** sets the receive time if and only if it reads a valid request line. -/
theorem call_receiveTime {ctx ctx' : HttpContext} {buf : Buffer} {t : TimeStamp}
    (h : call ctx (.parseRequest buf t) = some ctx') :
    ctx'.request.receiveTime =
        (if ctx.readsRequestLine buf then t else ctx.request.receiveTime) ∧
      ctx'.request.body = ctx.request.body := by
  rw [call, parseLoopChecked_eq] at h
  obtain ⟨r, hloop, rfl⟩ := Option.map_eq_some_iff.1 h
  unfold readsRequestLine
  cases hs : ctx.state with
  | kExpectRequestLine =>
    rw [parseLoop, parseIter] at hloop
    simp only [hs] at hloop
    cases hc : buf.findCRLF with
    | none =>
      rw [hc] at hloop
      cases hloop
      exact ⟨rfl, rfl⟩
    | some crlf =>
      rw [hc] at hloop
      have hkeeps := processRequestLine_keeps ctx.request (buf.readable.take crlf)
      rcases hp : ctx.request.processRequestLine (buf.readable.take crlf) with ⟨_ | _, request⟩
      all_goals
        rw [hp] at hkeeps
        simp only [hp] at hloop ⊢
      · cases hloop
        exact hkeeps
      · obtain ⟨htime, hbody⟩ := parseLoop_keeps HttpRequestParseState.noConfusion hloop
        exact ⟨htime, hbody.trans hkeeps.2⟩
  | kExpectHeaders => exact parseLoop_keeps (by simp [hs]) hloop
  | kExpectBody => exact parseLoop_keeps (by simp [hs]) hloop
  | kGotAll => exact parseLoop_keeps (by simp [hs]) hloop

/-- The receive time is that of the last call that read a valid request line. -/
theorem receiveTime_run {calls : List Call} {ctx : HttpContext} (h : run call {} calls = some ctx) :
    ctx.request.receiveTime = (emitted call requestTimes {} calls).getLast?.getD 0 ∧
      ctx.request.body = [] := by
  refine run_history (P := fun calls ctx =>
    ctx.request.receiveTime = (emitted call requestTimes {} calls).getLast?.getD 0 ∧
      ctx.request.body = []) ⟨rfl, rfl⟩ ?_ h
  rintro cs u c v hu ⟨htime, hbody⟩ hcall
  rw [emitted_concat hu]
  cases c with
  | reset =>
    cases hcall
    refine ⟨?_, hbody⟩
    rw [requestTimes, List.append_nil]
    exact htime
  | parseRequest buf t =>
    obtain ⟨htime', hbody'⟩ := call_receiveTime hcall
    refine ⟨?_, hbody'.trans hbody⟩
    rw [htime', requestTimes]
    split_ifs
    · simp
    · simpa using htime

/-- **`reset` gives a fresh parser** after every history of calls: the context cannot be told from a
new one, at once or after any further calls, if and only if the last call that read a valid request
line, if any, was given the time 0. -/
theorem reset_fresh_iff {calls : List Call} {ctx : HttpContext} (h : run call {} calls = some ctx) :
    Indistinguishable ctx.reset {} ↔
      ∀ t ∈ (emitted call requestTimes {} calls).getLast?, t = 0 := by
  obtain ⟨htime, hbody⟩ := receiveTime_run h
  have hzero : ctx.request.receiveTime = 0 ↔
      ∀ t ∈ (emitted call requestTimes {} calls).getLast?, t = 0 := by
    rw [htime]
    cases (emitted call requestTimes {} calls).getLast? <;> simp
  rw [← hzero]
  constructor
  · intro hsame
    have hshown : ctx.reset.shown = shown {} := Option.some.inj (hsame [])
    simp only [shown, Prod.mk.injEq] at hshown
    exact hshown.2.2.2.2.2.2
  · intro hreceive calls'
    have hfresh : ctx.reset = {} := by
      rw [reset, hbody, hreceive]
    rw [hfresh]

/-- A buffer with one line. -/
def oneLine (line : String) : Buffer := (Buffer.new 64).append (Bytes.ascii line ++ kCRLF)

/-- The first line of a request at the time 0, and a bad request line after a `reset`. -/
theorem reset_fresh_badRequest :
    ∃ ctx, run call {} [.parseRequest (oneLine "GET / HTTP/1.1") 0, .reset,
        .parseRequest (oneLine "PUT /?a HTTP/2.0") 5] = some ctx ∧
      ctx.request.method = .kPut ∧ Indistinguishable ctx.reset {} := by
  have hrun : (run call {} [.parseRequest (oneLine "GET / HTTP/1.1") 0, .reset,
      .parseRequest (oneLine "PUT /?a HTTP/2.0") 5]).map (fun ctx => ctx.request.method) =
        some .kPut := by decide +kernel
  obtain ⟨ctx, hctx, hmethod⟩ := Option.map_eq_some_iff.1 hrun
  refine ⟨ctx, hctx, hmethod, (reset_fresh_iff hctx).2 ?_⟩
  decide +kernel

/-- After a request at the time 1 the context shows this time, although it was reset. -/
theorem reset_keeps_receiveTime :
    ∃ ctx, run call {} [.parseRequest wholeRequest 1] = some ctx ∧
      ctx.reset.request.receiveTime = 1 ∧ ¬ Indistinguishable ctx.reset {} := by
  have hrun : (run call {} [.parseRequest wholeRequest 1]).map
      (fun ctx => ctx.reset.request.receiveTime) = some 1 := by decide +kernel
  obtain ⟨ctx, hctx, htime⟩ := Option.map_eq_some_iff.1 hrun
  refine ⟨ctx, hctx, htime, fun hsame => ?_⟩
  have hshown : ctx.reset.shown = shown {} := Option.some.inj (hsame [])
  simp only [shown, Prod.mk.injEq, htime] at hshown
  exact absurd hshown.2.2.2.2.2.2 (by decide)

end HttpContext

end TinyNetwork
