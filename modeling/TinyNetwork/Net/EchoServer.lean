import TinyNetwork.Net.ReadFd
import TinyNetwork.Net.WriteInterest

/-!
# `class EchoServer` (src/example/echo.cpp)

`onMessage` takes everything from the input buffer and sends it back.  An `EchoSession` is one
connection of the server with both of its buffers, in the thread of its loop, where the handlers are
called in any order; `received` is what `::readv` delivered, and `effects` what the connection did.
The logging calls are left out, and with them all of `handleError`.

`echo_stream_iff`: nothing is left in the input buffer, as many bytes came in as were written, wait
in the output buffer or were dropped, and the bytes that went out continue with the output buffer to
what came in exactly as long as every writable event takes the right bytes, every message finds the
connection connected, and no direct write fails for good.
-/

namespace TinyNetwork

open Lts
open TcpConnection (Effect)

/-- What `::readv` delivered. -/
def ReadvResult.bytes : ReadvResult → Bytes
  | data d => d
  | error _ => []

/-- The kernel delivers at most what fits into the blocks. -/
def ReadvResult.Fits (r : ReadvResult) (b : Buffer) : Prop := r.bytes.length ≤ b.iovecs.sum

instance (r : ReadvResult) (b : Buffer) : Decidable (r.Fits b) := by
  unfold ReadvResult.Fits
  infer_instance

namespace Buffer

/-- The three outcomes of `readFd`, by the answer of `::readv`. -/
theorem readFd_cases (b : Buffer) (savedErrno : ℕ) {r : ReadvResult} (h : r.Fits b) :
    ∃ c errno n, b.readFd savedErrno r = some (c, errno, n) ∧
      c.readable = b.readable ++ r.bytes ∧ (0 < n ↔ r.bytes ≠ []) := by
  cases r with
  | error errno => exact ⟨b, errno, -1, rfl, by simp [ReadvResult.bytes], by simp [ReadvResult.bytes]⟩
  | data d =>
    have hpos : (0 : ℤ) < d.length ↔ d ≠ [] := by simp [List.length_pos_iff]
    by_cases hfits : d.length ≤ (b.fill d).writableBytes
    · refine ⟨_, savedErrno, d.length, dif_pos hfits, ?_, hpos⟩
      rw [readable_advance_fill b d le_rfl hfits, List.take_length]
      rfl
    · -- the vector is full, and the rest is on the stack
      have hfull : b.writableBytes ≤ d.length := by
        rw [writableBytes_fill] at hfits
        exact Nat.le_of_not_le hfits
      have hblock : d.length ≤ b.writableBytes + kExtrabuf := by
        have hsum : d.length ≤ b.iovecs.sum := h
        unfold iovecs at hsum
        split_ifs at hsum
        · simpa using hsum
        · exact (show d.length ≤ b.writableBytes by simpa using hsum).trans (Nat.le_add_right _ _)
      have hread := readable_advance_fill b d (n := (b.fill d).writableBytes)
        (by rwa [writableBytes_fill]) le_rfl
      refine ⟨_, savedErrno, d.length, (dif_neg hfits).trans (by rw [appendChecked_eq]; rfl), ?_, hpos⟩
      rw [readable_append, hread, take_extrabuf hblock, writableBytes_fill, List.append_assoc,
        List.take_append_drop]
      rfl

end Buffer

namespace TcpConnection

/-! ### A message that the loop thread sends -/

/-- `send` passes the message on, and `sendInLoop` does not give it up. -/
def Passes (c : TcpConnection) (w : WriteResult) : Prop :=
  c.state = .kConnected ∧ c.faultError w = false

instance (c : TcpConnection) (w : WriteResult) : Decidable (c.Passes w) := by
  unfold Passes
  infer_instance

/-- A write that fails for good leaves the connection as it is. -/
theorem sendInLoop_of_faultError {c : TcpConnection} {w : WriteResult}
    (hstate : c.state ≠ .kDisconnected) (h : c.faultError w = true) (m : Bytes) :
    c.sendInLoop m w = (c, [.write m w]) := by
  obtain ⟨hd, hfatal⟩ := Bool.and_eq_true_iff.1 h
  have hfailed : w.failed = true := by
    cases w with
    | accepted n => cases hfatal
    | error e => rfl
  simp [sendInLoop, hstate, hd, hfatal, hfailed]

/-- What goes through without a fault continues the stream. -/
theorem stream_of_faultError {c : TcpConnection} {m : Bytes} {w : WriteResult}
    (hstate : c.state ≠ .kDisconnected) (hfits : w.Fits m.length) (h : c.faultError w = false) :
    (c.sendInLoop m w).2.flatMap Effect.accepted ++ (c.sendInLoop m w).1.outputBuffer.readable =
      c.outputBuffer.readable ++ m := by
  rcases Bool.and_eq_false_iff.1 h with hd | hfatal
  · -- nothing is written, so the answer does not matter
    have hsame : c.sendInLoop m w = c.sendInLoop m (.accepted 0) := by
      simp [sendInLoop, hd]
    rw [hsame]
    exact (sendInLoop_streamed hstate (Nat.zero_le _) rfl).stream
  · exact (sendInLoop_streamed hstate hfits hfatal).stream

theorem state_sendInLoop {c : TcpConnection} (hstate : c.state ≠ .kDisconnected) (m : Bytes)
    (w : WriteResult) : (c.sendInLoop m w).1.state = c.state := by
  unfold sendInLoop
  rw [if_neg hstate]
  simp only
  split_ifs <;> rfl

section

variable (c : TcpConnection) {m : Bytes} {w : WriteResult}

theorem state_send (m : Bytes) (w : WriteResult) : (c.send m true w).1.state = c.state := by
  unfold send
  by_cases hstate : c.state = .kConnected
  · rw [if_pos hstate]
    exact state_sendInLoop (by rw [hstate]; decide) m w
  · rw [if_neg hstate]

/-- The bytes of a message are written, buffered or dropped. -/
theorem accounted_send (hfits : w.Fits m.length) :
    Accounted c m.length (if c.Passes w then 0 else m.length) (c.send m true w) := by
  unfold send Passes
  by_cases hstate : c.state = .kConnected
  · have haccounted := accounted_sendInLoop (c := c) (by rw [hstate]; decide) hfits
    rw [if_pos hstate]
    simp only [hstate, true_and, if_true]
    cases hfault : c.faultError w <;> simpa [hfault] using haccounted
  · simp only [hstate, if_false, false_and]
    exact ⟨id, by simp⟩

/-- They continue the stream if and only if they pass. -/
theorem stream_send_iff (hfits : w.Fits m.length) (hne : m ≠ []) :
    (c.send m true w).2.flatMap Effect.accepted ++ (c.send m true w).1.outputBuffer.readable =
      c.outputBuffer.readable ++ m ↔ c.Passes w := by
  unfold send Passes
  by_cases hstate : c.state = .kConnected
  · have hopen : c.state ≠ .kDisconnected := by rw [hstate]; decide
    simp only [hstate, if_true, true_and]
    cases hfault : c.faultError w with
    | false => exact iff_of_true (stream_of_faultError hopen hfits hfault) rfl
    | true =>
      have hnone : (Effect.write m w).accepted = [] := by
        rw [accepted_write m w hfits,
          WriteResult.count_eq_zero_of_fatal (Bool.and_eq_true_iff.1 hfault).2, List.take_zero]
      rw [sendInLoop_of_faultError hopen hfault]
      simp [hnone, hne]
  · simp [hstate, hne]

end

end TcpConnection

/-- One connection of the server. -/
structure EchoSession where
  conn : TcpConnection
  inputBuffer : Buffer := Buffer.new kInitialSize
  received : Bytes := []
  effects : List Effect := []

namespace EchoSession

/-- A handler is called.  `handleClose` comes from `EPOLLHUP`. -/
inductive Label
  | handleRead (answer : ReadvResult) (w : WriteResult)
  | handleWrite (heap : Heap) (w : WriteResult)
  | handleClose

/-- A member function of the connection is called. -/
def perform (s : EchoSession) (r : TcpConnection × List Effect) : EchoSession :=
  { s with conn := r.1, effects := s.effects ++ r.2 }

/-- `onMessage(conn, buf, time)`. -/
def onMessage (s : EchoSession) (w : WriteResult) : EchoSession :=
  let msg := s.inputBuffer.retrieveAllAsString
  { s with inputBuffer := msg.2 }.perform (s.conn.send msg.1 true w)

/-- `TcpConnection::handleRead`; `none` when an assertion fails. -/
def handleRead (s : EchoSession) (answer : ReadvResult) (w : WriteResult) : Option EchoSession :=
  (s.inputBuffer.readFd 0 answer).map fun r =>
    let s := { s with inputBuffer := r.1, received := s.received ++ answer.bytes }
    if 0 < r.2.2 then s.onMessage w
    else if r.2.2 = 0 then s.perform s.conn.handleClose
    else s

def step (s : EchoSession) : Label → Option EchoSession
  | .handleRead answer w =>
    if answer.Fits s.inputBuffer ∧ w.Fits (s.inputBuffer.readableBytes + answer.bytes.length) then
      s.handleRead answer w
    else none
  | .handleWrite heap w =>
    if w.Fits s.conn.outputBuffer.readableBytes then some (s.perform (s.conn.handleWrite heap w))
    else none
  | .handleClose => some (s.perform s.conn.handleClose)

/-- `connectEstablished` has run. -/
def established : EchoSession where
  conn := (TcpConnection.connectEstablished {}).1

/-- What the kernel accepted. -/
def sent (s : EchoSession) : Bytes := s.effects.flatMap Effect.accepted

/-- The number of bytes that it accepted. -/
def written (s : EchoSession) : ℕ := (s.effects.map Effect.nwrote).sum

/-- The echo so far: what went out, and what is going to, is what came in. -/
def Echoes (s : EchoSession) : Prop := s.sent ++ s.conn.outputBuffer.readable = s.received

/-- The condition on a step. -/
def EchoStep (s : EchoSession) : Label → Prop
  | .handleRead answer w => answer.bytes = [] ∨ s.conn.Passes w
  | .handleWrite heap w => s.conn.DrainOk heap w
  | .handleClose => True

instance (s : EchoSession) (l : Label) : Decidable (s.EchoStep l) := by
  cases l <;> unfold EchoStep <;> infer_instance

/-- The bytes dropped in a step. -/
def dropped (s : EchoSession) : Label → ℕ
  | .handleRead answer w => if s.conn.Passes w then 0 else answer.bytes.length
  | _ => 0

/-- Between the handlers the input buffer is empty. -/
structure Inv (s : EchoSession) : Prop where
  unread : s.inputBuffer.readable = []
  state : s.conn.state = .kConnected ∨ s.conn.state = .kDisconnected

/-- What a handler does to a session: it receives `bytes` and drops `dropped` of them; the echo goes
on if and only if `ok`. -/
structure StepTo (s t : EchoSession) (bytes : Bytes) (dropped : ℕ) (ok : Prop) : Prop where
  inv : t.Inv
  received : t.received = s.received ++ bytes
  count : t.written + t.conn.outputBuffer.readableBytes + dropped =
    s.written + s.conn.outputBuffer.readableBytes + bytes.length
  echoes : s.Echoes → (t.Echoes ↔ ok)

@[simp] theorem sent_perform (s : EchoSession) (r : TcpConnection × List Effect) :
    (s.perform r).sent = s.sent ++ r.2.flatMap Effect.accepted := List.flatMap_append

@[simp] theorem written_perform (s : EchoSession) (r : TcpConnection × List Effect) :
    (s.perform r).written = s.written + (r.2.map Effect.nwrote).sum := by
  simp [written, perform]

variable {s t : EchoSession}

/-- Handlers that leave the bytes alone. -/
theorem stepTo_silent (hs : s.Inv) {r : TcpConnection × List Effect}
    (hstate : r.1.state = .kConnected ∨ r.1.state = .kDisconnected)
    (hbuffer : r.1.outputBuffer = s.conn.outputBuffer)
    (hsilent : ∀ e ∈ r.2, e.accepted = [] ∧ e.nwrote = 0) :
    StepTo s (s.perform r) [] 0 True := by
  have hnone : r.2.flatMap Effect.accepted = [] :=
    List.flatMap_eq_nil_iff.2 fun e he => (hsilent e he).1
  have hzero : (r.2.map Effect.nwrote).sum = 0 :=
    TcpConnection.sum_nwrote_eq_zero fun e he => (hsilent e he).2
  refine ⟨⟨hs.unread, hstate⟩, (List.append_nil _).symm, ?_, fun hecho => ?_⟩
  · rw [written_perform, hzero]
    simp [perform, hbuffer]
  · refine iff_of_true ?_ trivial
    rw [Echoes, sent_perform, hnone, List.append_nil]
    show s.sent ++ r.1.outputBuffer.readable = s.received
    rw [hbuffer, hecho]

theorem stepTo_handleClose (hs : s.Inv) : StepTo s (s.perform s.conn.handleClose) [] 0 True :=
  stepTo_silent hs (.inr rfl) rfl (by simp [TcpConnection.handleClose, Effect.accepted, Effect.nwrote])

theorem stepTo_handleWrite (hs : s.Inv) (heap : Heap) {w : WriteResult}
    (hfits : w.Fits s.conn.outputBuffer.readableBytes) :
    StepTo s (s.perform (s.conn.handleWrite heap w)) [] 0 (s.conn.DrainOk heap w) := by
  have hcount := (TcpConnection.accounted_handleWrite heap hfits).bytes
  have hstream := TcpConnection.writeOutput_stream_iff heap hfits
  obtain ⟨es, heffects, hes⟩ := s.conn.handleWrite_snd heap w
  have hnone : es.flatMap Effect.accepted = [] := by
    rw [List.flatMap_eq_nil_iff]
    intro e he
    rw [hes e he]
    rfl
  refine ⟨⟨hs.unread, ?_⟩, (List.append_nil _).symm, ?_, fun hecho => ?_⟩
  · have hstate : (s.conn.handleWrite heap w).1.state = s.conn.state := by
      rw [TcpConnection.handleWrite_fst]
      exact (TcpConnection.writeOutput_quiet s.conn heap w).state
    rw [perform, hstate]
    exact hs.state
  · rw [written_perform]
    simp only [perform, List.length_nil]
    omega
  · show (s.perform _).sent ++ (s.conn.handleWrite heap w).1.outputBuffer.readable = s.received ↔ _
    rw [← hstream, sent_perform, heffects, List.flatMap_append, hnone, List.append_nil,
      TcpConnection.handleWrite_fst, List.append_assoc, ← hecho, List.append_cancel_left_eq]

/-- A message that has been read and is sent back. -/
theorem stepTo_onMessage (hs : s.Inv) {bytes : Bytes} {w : WriteResult} {buf : Buffer}
    (hbuf : buf.readable = bytes) (hne : bytes ≠ []) (hfits : w.Fits bytes.length) :
    StepTo s ({ s with inputBuffer := buf, received := s.received ++ bytes }.onMessage w) bytes
      (if s.conn.Passes w then 0 else bytes.length) (s.conn.Passes w) := by
  have hunread : buf.retrieveAllAsString.2.readable = [] := by
    rw [Buffer.retrieveAllAsString_snd, Buffer.readable_retrieveAll]
  have hcount := (s.conn.accounted_send hfits).bytes
  have hstream := s.conn.stream_send_iff hfits hne
  have hstate := s.conn.state_send bytes w
  simp only [onMessage, Buffer.retrieveAllAsString_fst, hbuf]
  refine ⟨⟨hunread, ?_⟩, rfl, ?_, fun hecho => ?_⟩
  · show (s.conn.send bytes true w).1.state = _ ∨ (s.conn.send bytes true w).1.state = _
    rw [hstate]
    exact hs.state
  · rw [written_perform]
    simp only [perform, written] at hcount ⊢
    omega
  · rw [← hstream, Echoes, sent_perform, List.append_assoc]
    show s.sent ++ ((s.conn.send bytes true w).2.flatMap Effect.accepted ++
      (s.conn.send bytes true w).1.outputBuffer.readable) = s.received ++ bytes ↔ _
    rw [← hecho, List.append_assoc, List.append_cancel_left_eq]

/-- **A readable event** is handled, whatever `::readv` answers. -/
theorem stepTo_handleRead (hs : s.Inv) {answer : ReadvResult} {w : WriteResult}
    (hanswer : answer.Fits s.inputBuffer) (hfits : w.Fits answer.bytes.length) :
    ∃ t, s.handleRead answer w = some t ∧
      StepTo s t answer.bytes (if s.conn.Passes w then 0 else answer.bytes.length)
        (answer.bytes = [] ∨ s.conn.Passes w) := by
  obtain ⟨buf, errno, n, hread, hbuf, hpos⟩ := s.inputBuffer.readFd_cases 0 hanswer
  rw [hs.unread, List.nil_append] at hbuf
  refine ⟨_, by rw [handleRead, hread, Option.map_some], ?_⟩
  by_cases hn : 0 < n
  · have hne := hpos.1 hn
    simp only [if_pos hn, hne, false_or]
    exact stepTo_onMessage hs hbuf hne hfits
  · -- the end of the stream, or an error
    have hnil : answer.bytes = [] := not_not.1 fun hne => hn (hpos.2 hne)
    have hs' : Inv { s with inputBuffer := buf, received := s.received ++ answer.bytes } :=
      ⟨by rw [hbuf, hnil], hs.state⟩
    simp only [hnil, List.append_nil, List.length_nil, ite_self, true_or, if_neg hn] at hs' ⊢
    split_ifs
    · have hclose := stepTo_handleClose hs'
      exact ⟨hclose.inv, hclose.received, hclose.count, hclose.echoes⟩
    · exact ⟨hs', (List.append_nil _).symm, rfl, fun hecho => iff_of_true hecho trivial⟩

/-- What a label brings in. -/
def Label.bytes : Label → Bytes
  | .handleRead answer _ => answer.bytes
  | _ => []

/-- **One handler.** -/
theorem stepTo_of_step {l : Label} (hs : s.Inv) (h : step s l = some t) :
    StepTo s t l.bytes (s.dropped l) (s.EchoStep l) := by
  cases l with
  | handleRead answer w =>
    simp only [step] at h
    split_ifs at h with hfits
    have hempty : s.inputBuffer.readableBytes = 0 := (Buffer.readable_eq_nil_iff _).1 hs.unread
    rw [hempty, Nat.zero_add] at hfits
    obtain ⟨u, hu, hto⟩ := stepTo_handleRead hs hfits.1 hfits.2
    rw [hu] at h
    cases h
    exact hto
  | handleWrite heap w =>
    simp only [step] at h
    split_ifs at h with hfits
    cases h
    exact stepTo_handleWrite hs heap hfits
  | handleClose =>
    cases h
    exact stepTo_handleClose hs

theorem inv_established : established.Inv := ⟨Buffer.readable_new _, .inl rfl⟩

/-- **The echo.**  In every run of a connection nothing is left in the input buffer between the
handlers, and no assertion of the next `handleRead` fails.  As many bytes came in as were written,
wait in the output buffer or were dropped.  And what went out, continued with the output buffer, is
what came in, in every state of the run, if and only if every `handleWrite` takes the right bytes
and every message comes in when the connection is connected and not broken. -/
theorem echo_stream_iff {ls : List Label} {s : EchoSession} (h : run step established ls = some s) :
    s.inputBuffer.readable = [] ∧
    (∀ answer w, answer.Fits s.inputBuffer → w.Fits answer.bytes.length →
      (step s (.handleRead answer w)).isSome) ∧
    s.received = ls.flatMap Label.bytes ∧
    s.received.length =
      s.written + s.conn.outputBuffer.readableBytes + tally step dropped established ls ∧
    ((∀ ms u, ms <+: ls → run step established ms = some u → u.Echoes) ↔
      Along step EchoStep established ls) := by
  have hall : s.Inv ∧ s.received = ls.flatMap Label.bytes ∧ s.received.length =
      s.written + s.conn.outputBuffer.readableBytes + tally step dropped established ls := by
    refine run_history (P := fun ms u => u.Inv ∧ u.received = ms.flatMap Label.bytes ∧
      u.received.length =
        u.written + u.conn.outputBuffer.readableBytes + tally step dropped established ms)
      ⟨inv_established, rfl, rfl⟩ ?_ h
    rintro ms u l v hrun ⟨hinv, hreceived, hcount⟩ hstep
    have hto := stepTo_of_step hinv hstep
    refine ⟨hto.inv, ?_, ?_⟩
    · rw [hto.received, hreceived, List.flatMap_append, List.flatMap_singleton]
    · have hstepcount := hto.count
      rw [hto.received, List.length_append, tally_concat hrun]
      omega
  obtain ⟨hinv, hreceived, hcount⟩ := hall
  refine ⟨hinv.unread, fun answer w hanswer hfits => ?_, hreceived, hcount, ?_⟩
  · obtain ⟨t, ht, -⟩ := stepTo_handleRead hinv hanswer hfits
    have hempty : s.inputBuffer.readableBytes = 0 := (Buffer.readable_eq_nil_iff _).1 hinv.unread
    rw [step, if_pos ⟨hanswer, by rwa [hempty, Nat.zero_add]⟩, ht]
    rfl
  · exact forall_prefix_iff_along (I := Inv) (fun _ _ _ hs hstep => (stepTo_of_step hs hstep).inv)
      (fun _ _ _ hs hecho hstep => (stepTo_of_step hs hstep).echoes hecho) inv_established rfl h

/-- Two messages, of which the kernel takes the first and one byte of the second. -/
def twoMessages : List Label :=
  [.handleRead (.data [1, 2]) (.accepted 2), .handleRead (.data [3, 4, 5]) (.accepted 1)]

theorem echo_stream_two :
    ∃ s, run step established twoMessages = some s ∧ s.received = [1, 2, 3, 4, 5] ∧
      s.written = 3 ∧ s.Echoes := by
  have hrun : (run step established twoMessages).map (fun s => (s.received, s.written)) =
      some ([1, 2, 3, 4, 5], 3) := by decide +kernel
  obtain ⟨s, hs, hend⟩ := Option.map_eq_some_iff.1 hrun
  obtain ⟨hreceived, hwritten⟩ := Prod.mk.inj hend
  have hok : Along step EchoStep established twoMessages := by
    decide +kernel
  exact ⟨s, hs, hreceived, hwritten,
    (echo_stream_iff hs).2.2.2.2.2 hok _ s (List.prefix_refl _) hs⟩

end EchoSession

end TinyNetwork
