import TinyNetwork.Lib.Run
import TinyNetwork.Net.BufferFifo
import TinyNetwork.Http.HeaderSection

/-!
# When `parseRequest` returns

`parseIterChecked` is the body of the loop with the assertions of `Buffer::retrieveUntil`, and
`parseLoopChecked` the loop; an assertion that fails leaves no result.  None fails, so both agree
with `parseIter` and `parseLoop`.

A context is never in `kExpectBody`, and in `kGotAll` no branch of the loop does anything.
`parseRequest_returns_iff`: a call returns, with whole lines consumed, if and only if the context is
not in `kGotAll`.
-/

namespace TinyNetwork

open Search

namespace HttpContext

/-- `parseIter` with the assertions. -/
def parseIterChecked (receiveTime : TimeStamp) (ok : Bool) (ctx : HttpContext) (buf : Buffer) :
    Option (Bool × Bool × HttpContext × Buffer) :=
  match ctx.state with
  | .kExpectRequestLine =>
    match buf.findCRLF with
    | some crlf =>
      match ctx.request.processRequestLine (buf.readable.take crlf) with
      | (true, request) =>
        (buf.retrieveUntilChecked (crlf + 2)).map fun buf =>
          (true, true, ⟨.kExpectHeaders, request.setReceiveTime receiveTime⟩, buf)
      | (false, request) => some (false, false, { ctx with request := request }, buf)
    | none => some (ok, false, ctx, buf)
  | .kExpectHeaders =>
    match buf.findCRLF with
    | some crlf =>
      match find 58 (buf.readable.take crlf) with
      | (field, _ :: rest) =>
        (buf.retrieveUntilChecked (crlf + 2)).map fun buf =>
          (ok, true, { ctx with request := ctx.request.addHeader field rest }, buf)
      | (_, []) =>
        (buf.retrieveUntilChecked (crlf + 2)).map fun buf =>
          (ok, false, { ctx with state := .kGotAll }, buf)
    | none => some (ok, false, ctx, buf)
  | .kExpectBody => some (ok, true, ctx, buf)
  | .kGotAll => some (ok, true, ctx, buf)

/-- The loop, given up after a number of iterations. -/
def parseLoopChecked (receiveTime : TimeStamp) :
    ℕ → Bool → HttpContext → Buffer → Option (Bool × HttpContext × Buffer)
  | 0, _, _, _ => none
  | n + 1, ok, ctx, buf =>
    (parseIterChecked receiveTime ok ctx buf).bind fun
      | (ok, true, ctx, buf) => parseLoopChecked receiveTime n ok ctx buf
      | (ok, false, ctx, buf) => some (ok, ctx, buf)

/-- The CRLF found is readable. -/
theorem crlf_le {buf : Buffer} {crlf : ℕ} (h : buf.findCRLF = some crlf) :
    crlf + 2 ≤ buf.readableBytes := by
  have hlen := search_add_length_le h
  rwa [length_kCRLF, Buffer.length_readable] at hlen

/-- The assertions hold. -/
theorem parseIterChecked_eq (t : TimeStamp) (ok : Bool) (ctx : HttpContext) (buf : Buffer) :
    parseIterChecked t ok ctx buf = some (parseIter t ok ctx buf) := by
  have hretrieve : ∀ crlf, buf.findCRLF = some crlf →
      buf.retrieveUntilChecked (crlf + 2) = some (buf.retrieveUntil (crlf + 2)) :=
    fun crlf hc => Buffer.retrieveUntilChecked_eq (crlf_le hc)
  unfold parseIterChecked parseIter
  cases hs : ctx.state with
  | kExpectRequestLine =>
    cases hc : buf.findCRLF with
    | none => rfl
    | some crlf =>
      simp only [hretrieve crlf hc]
      rcases ctx.request.processRequestLine (buf.readable.take crlf) with ⟨_ | _, request⟩ <;> rfl
  | kExpectHeaders =>
    cases hc : buf.findCRLF with
    | none => rfl
    | some crlf =>
      simp only [hretrieve crlf hc]
      rcases find 58 (buf.readable.take crlf) with ⟨field, _ | ⟨_, rest⟩⟩ <;> rfl
  | kExpectBody => rfl
  | kGotAll => rfl

theorem parseLoopChecked_eq (t : TimeStamp) (n : ℕ) (ok : Bool) (ctx : HttpContext)
    (buf : Buffer) : parseLoopChecked t n ok ctx buf = parseLoop t n ok ctx buf := by
  induction n generalizing ok ctx buf with
  | zero => rfl
  | succ n ih =>
    rw [parseLoopChecked, parseIterChecked_eq, Option.bind_some, parseLoop]
    rcases parseIter t ok ctx buf with ⟨ok', _ | _, ctx', buf'⟩
    · rfl
    · exact ih ok' ctx' buf'

/-! ### Whole lines -/

/-- From `buf` to `buf'` whole lines were taken. -/
def TakesLines (buf buf' : Buffer) : Prop :=
  ∃ lines : List Bytes, (∀ line ∈ lines, IsLine line) ∧
    buf.readable = joinLines lines ++ buf'.readable

theorem TakesLines.refl (buf : Buffer) : TakesLines buf buf := ⟨[], by simp, rfl⟩

theorem TakesLines.trans {a b c : Buffer} (hab : TakesLines a b) (hbc : TakesLines b c) :
    TakesLines a c := by
  obtain ⟨lines, hlines, heq⟩ := hab
  obtain ⟨lines', hlines', heq'⟩ := hbc
  refine ⟨lines ++ lines', fun line hline => ?_, ?_⟩
  · rcases List.mem_append.1 hline with h | h
    · exact hlines line h
    · exact hlines' line h
  · rw [heq, heq', joinLines, joinLines, joinLines, List.flatMap_append, List.append_assoc]

theorem takesLines_retrieveUntil {buf : Buffer} {crlf : ℕ} (h : buf.findCRLF = some crlf) :
    TakesLines buf (buf.retrieveUntil (crlf + 2)) := by
  refine ⟨[buf.readable.take crlf], ?_, ?_⟩
  · intro line hline
    obtain rfl := List.mem_singleton.1 hline
    exact (isLine_of_search h).1
  · rw [Buffer.readable_retrieveUntil (crlf_le h), joinLines_cons, List.append_assoc,
      List.append_assoc]
    exact (isLine_of_search h).2

theorem readableBytes_retrieveUntil_lt {buf : Buffer} {crlf : ℕ} (h : buf.findCRLF = some crlf) :
    (buf.retrieveUntil (crlf + 2)).readableBytes < buf.readableBytes := by
  have hle := crlf_le h
  rw [Buffer.retrieveUntil, Buffer.readableBytes_retrieve hle]
  omega

/-- **One iteration** in a state in which the loop reads takes at most a line.  It goes on only if
it took one, and in such a state. -/
theorem parseIter_takesLines (t : TimeStamp) (ok : Bool) {ctx : HttpContext} (buf : Buffer)
    (h : ctx.Reading) :
    ∃ ok' more ctx' buf', parseIter t ok ctx buf = (ok', more, ctx', buf') ∧
      TakesLines buf buf' ∧ (ctx'.Reading ∨ more = false ∧ ctx'.gotAll = true) ∧
      (more = true → buf'.readableBytes < buf.readableBytes) := by
  unfold parseIter
  cases hc : buf.findCRLF with
  | none =>
    refine ⟨ok, false, ctx, buf, ?_, .refl buf, .inl h, fun hmore => by cases hmore⟩
    rcases h with h | h <;> simp only [h]
  | some crlf =>
    have htakes := takesLines_retrieveUntil hc
    have hlt := readableBytes_retrieveUntil_lt hc
    rcases h with hstate | hstate
    · rcases hp : ctx.request.processRequestLine (buf.readable.take crlf) with ⟨_ | _, request⟩
      · exact ⟨false, false, { ctx with request := request }, buf, by simp only [hstate, hp],
          .refl buf, .inl (.inl hstate), fun hmore => by cases hmore⟩
      · exact ⟨true, true, ⟨.kExpectHeaders, request.setReceiveTime t⟩,
          buf.retrieveUntil (crlf + 2), by simp only [hstate, hp], htakes, .inl (.inr rfl),
          fun _ => hlt⟩
    · rcases hp : find 58 (buf.readable.take crlf) with ⟨field, _ | ⟨b, rest⟩⟩
      · exact ⟨ok, false, { ctx with state := .kGotAll }, buf.retrieveUntil (crlf + 2),
          by simp only [hstate, hp], htakes, .inr ⟨rfl, rfl⟩, fun hmore => by cases hmore⟩
      · exact ⟨ok, true, { ctx with request := ctx.request.addHeader field rest },
          buf.retrieveUntil (crlf + 2), by simp only [hstate, hp], htakes, .inl (.inr hstate),
          fun _ => hlt⟩

/-- The loop ends after at most as many iterations as there are bytes to read, and one more. -/
theorem parseLoop_takesLines (t : TimeStamp) (n : ℕ) (ok : Bool) {ctx : HttpContext} {buf : Buffer}
    (h : ctx.Reading) (hn : buf.readableBytes < n) :
    ∃ ok' ctx' buf', parseLoop t n ok ctx buf = some (ok', ctx', buf') ∧ TakesLines buf buf' ∧
      (ctx'.Reading ∨ ctx'.gotAll = true) := by
  induction n generalizing ok ctx buf with
  | zero => omega
  | succ n ih =>
    obtain ⟨ok', more, ctx', buf', hiter, htakes, hstate, hlt⟩ := parseIter_takesLines t ok buf h
    cases more with
    | false =>
      refine ⟨ok', ctx', buf', by rw [parseLoop, hiter], htakes, hstate.imp id And.right⟩
    | true =>
      have hreading : ctx'.Reading := hstate.resolve_right fun hend => by cases hend.1
      have hless : buf'.readableBytes < n := Nat.lt_of_lt_of_le (hlt rfl) (Nat.le_of_lt_succ hn)
      obtain ⟨ok₁, ctx₁, buf₁, hloop, htakes₁, hstate₁⟩ := ih ok' hreading hless
      exact ⟨ok₁, ctx₁, buf₁, by rw [parseLoop, hiter]; exact hloop, htakes.trans htakes₁,
        hstate₁⟩

/-- In a state without a branch the loop does not end. -/
theorem parseLoop_spins (t : TimeStamp) (n : ℕ) (ok : Bool) {ctx : HttpContext} (buf : Buffer)
    (h : ctx.gotAll = true) : parseLoop t n ok ctx buf = none := by
  have hstate : ctx.state = .kGotAll := of_decide_eq_true h
  have hiter : parseIter t ok ctx buf = (ok, true, ctx, buf) := by
    simp only [parseIter, hstate]
  induction n with
  | zero => rfl
  | succ n ih =>
    rw [parseLoop, hiter]
    exact ih

/-! ### Sequences of calls -/

/-- What the owner of a context calls. -/
inductive Call
  | parseRequest (buf : Buffer) (receiveTime : TimeStamp)
  | reset

/-- The context after a call that returns. -/
def call (ctx : HttpContext) : Call → Option HttpContext
  | .parseRequest buf receiveTime =>
    (parseLoopChecked receiveTime (buf.readableBytes + 1) true ctx buf).map fun r => r.2.1
  | .reset => some ctx.reset

/-- A call of `parseRequest` returns after some number of iterations, no assertion fails, and it has
taken whole lines. -/
def ParsesLines (ctx : HttpContext) (buf : Buffer) (receiveTime : TimeStamp) : Prop :=
  ∃ n ok ctx' buf', parseLoopChecked receiveTime n true ctx buf = some (ok, ctx', buf') ∧
    TakesLines buf buf'

/-- No call leads to a context that expects a body. -/
theorem reading_or_gotAll_call {ctx ctx' : HttpContext} {c : Call}
    (h : ctx.Reading ∨ ctx.gotAll = true) (hcall : call ctx c = some ctx') :
    ctx'.Reading ∨ ctx'.gotAll = true := by
  cases c with
  | reset =>
    cases hcall
    exact .inl (.inl rfl)
  | parseRequest buf t =>
    rw [call, parseLoopChecked_eq] at hcall
    rcases h with hreading | hgot
    · obtain ⟨ok, ctx₁, buf₁, hloop, -, hstate⟩ :=
        parseLoop_takesLines t (buf.readableBytes + 1) true hreading (Nat.lt_succ_self _)
      rw [hloop] at hcall
      cases hcall
      exact hstate
    · rw [parseLoop_spins t _ true buf hgot] at hcall
      cases hcall

/-- A context never expects a body. -/
theorem reading_or_gotAll_of_run {calls : List Call} {ctx : HttpContext}
    (h : Lts.run call {} calls = some ctx) : ctx.Reading ∨ ctx.gotAll = true :=
  Lts.run_preserves (fun _ _ _ hctx hcall => reading_or_gotAll_call hctx hcall) (.inl (.inl rfl)) h

/-- **When `parseRequest` returns.**  In every state that a context reaches by calls of
`parseRequest` and `reset`, and for every buffer, `parseRequest` returns with whole lines taken and
no assertion failed if and only if the context has not got a whole request already. -/
theorem parseRequest_returns_iff {calls : List Call} {ctx : HttpContext}
    (h : Lts.run call {} calls = some ctx) (buf : Buffer) (receiveTime : TimeStamp) :
    ParsesLines ctx buf receiveTime ↔ ctx.gotAll = false := by
  constructor
  · rintro ⟨n, ok, ctx', buf', hloop, -⟩
    by_contra hgot
    rw [parseLoopChecked_eq, parseLoop_spins receiveTime n true buf (by simpa using hgot)] at hloop
    cases hloop
  · intro hgot
    have hreading : ctx.Reading := (reading_or_gotAll_of_run h).resolve_right (by simp [hgot])
    obtain ⟨ok, ctx', buf', hloop, htakes, -⟩ :=
      parseLoop_takesLines receiveTime (buf.readableBytes + 1) true hreading (Nat.lt_succ_self _)
    exact ⟨buf.readableBytes + 1, ok, ctx', buf', by rw [parseLoopChecked_eq]; exact hloop, htakes⟩

/-- A buffer with a whole request. -/
def wholeRequest : Buffer := (Buffer.new 64).append (Bytes.ascii "GET / HTTP/1.1\r\n\r\n")

/-- After a whole request and a `reset`. -/
theorem parseRequest_returns_reset :
    ∃ ctx, Lts.run call {} [.parseRequest wholeRequest 1, .reset] = some ctx ∧
      ParsesLines ctx wholeRequest 2 := by
  have hrun : (Lts.run call {} [.parseRequest wholeRequest 1, .reset]).map HttpContext.gotAll =
      some false := by decide +kernel
  obtain ⟨ctx, hctx, hgot⟩ := Option.map_eq_some_iff.1 hrun
  exact ⟨ctx, hctx, (parseRequest_returns_iff hctx wholeRequest 2).2 hgot⟩

/-- After a whole request, without a `reset`, the next call spins, whatever there is to read. -/
theorem parseRequest_spins :
    ∃ ctx, Lts.run call {} [.parseRequest wholeRequest 1] = some ctx ∧
      ∀ buf t, (∀ n, parseLoopChecked t n true ctx buf = none) ∧ ¬ ParsesLines ctx buf t := by
  have hrun : (Lts.run call {} [.parseRequest wholeRequest 1]).map HttpContext.gotAll =
      some true := by decide +kernel
  obtain ⟨ctx, hctx, hgot⟩ := Option.map_eq_some_iff.1 hrun
  refine ⟨ctx, hctx, fun buf t => ?_⟩
  have hspins : ∀ n, parseLoopChecked t n true ctx buf = none := fun n => by
    rw [parseLoopChecked_eq]
    exact parseLoop_spins t n true buf hgot
  refine ⟨hspins, ?_⟩
  rintro ⟨n, ok, ctx', buf', hloop, -⟩
  rw [hspins n] at hloop
  cases hloop

end HttpContext

end TinyNetwork
