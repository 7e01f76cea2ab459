import TinyNetwork.Net.Buffer

/-!
# `class TcpConnection` (src/net/TcpConnection.h, src/net/TcpConnection.cpp)

The member functions of one connection.  Each returns the new connection and the list of what it
did, in order: the calls of `::write` with the bytes offered and the answer of the kernel, the
functors queued on the loop, the callbacks, the updates of the channel and `shutdownWrite()`.  The
answer `w` of `::write` is an argument; `inLoop` says whether the caller is the loop thread.

The logging calls are left out.

`send_overloads_agree_iff` compares `send(Buffer *)` with `send(const std::string &)`.  The code
passes `beginWrite()` to `sendInLoop` where the readable bytes start at `beginRead()`, so the two
agree only where the memory behind the writer index happens to repeat the readable bytes.
-/

namespace TinyNetwork

/-- The answer of a call of `::write`. -/
inductive WriteResult
  | accepted (n : ℕ)
  | error (errno : ℕ)
  deriving DecidableEq

def EWOULDBLOCK : ℕ := 11

def EPIPE : ℕ := 32

def ECONNRESET : ℕ := 104

namespace WriteResult

/-- The kernel accepts at most the bytes it was offered. -/
def Fits (len : ℕ) : WriteResult → Prop
  | accepted n => n ≤ len
  | error _ => True

instance (len : ℕ) (w : WriteResult) : Decidable (w.Fits len) := by
  cases w <;> unfold Fits <;> infer_instance

/-- `errno == EPIPE || errno == ECONNRESET`. -/
def fatal : WriteResult → Bool
  | accepted _ => false
  | error e => e == EPIPE || e == ECONNRESET

/-- `nwrote < 0`. -/
def failed : WriteResult → Bool
  | accepted _ => false
  | error _ => true

/-- The number of bytes accepted. -/
def count : WriteResult → ℕ
  | accepted n => n
  | error _ => 0

theorem count_eq_zero_of_fatal {w : WriteResult} (h : w.fatal = true) : w.count = 0 := by
  cases w with
  | accepted n => cases h
  | error e => rfl

theorem count_le_of_fits {w : WriteResult} {len : ℕ} (h : w.Fits len) : w.count ≤ len := by
  cases w with
  | accepted n => exact h
  | error e => exact Nat.zero_le _

end WriteResult

/-- The events a channel is registered for: `kReadEvent` and `kWriteEvent`. -/
structure Channel where
  reading : Bool := false
  writing : Bool := false
  deriving DecidableEq

namespace Channel

def enableReading (ch : Channel) : Channel := { ch with reading := true }

def enableWriting (ch : Channel) : Channel := { ch with writing := true }

def disableWriting (ch : Channel) : Channel := { ch with writing := false }

def disableAll (_ : Channel) : Channel := { reading := false, writing := false }

def isWriting (ch : Channel) : Bool := ch.writing

def isNoneEvent (ch : Channel) : Bool := !ch.reading && !ch.writing

end Channel

namespace TcpConnection

inductive StateE
  | kConnecting
  | kConnected
  | kDisconnecting
  | kDisconnected
  deriving DecidableEq

/-- The functors a connection hands to its loop. -/
inductive Functor
  | sendInLoop (message : Bytes)
  | shutdownInLoop
  | writeCompleteCallback
  | highWaterMarkCallback (len : ℕ)
  deriving DecidableEq

/-- What a member function does besides changing the connection. -/
inductive Effect
  | write (offered : Bytes) (result : WriteResult)
  | shutdownWrite
  | queueInLoop (f : Functor)
  | updateChannel (ch : Channel)
  | removeChannel
  | connectionCallback (connected : Bool)
  | closeCallback
  deriving DecidableEq

/-- The bytes the kernel accepted. -/
def Effect.accepted : Effect → Bytes
  | write offered (.accepted n) => offered.take n
  | _ => []

/-- The functor queued. -/
def Effect.queued : Effect → Option Functor
  | queueInLoop f => some f
  | _ => none

end TcpConnection

open TcpConnection in
/-- The fields of the class that the functions below use.  Of the two optional callbacks only
whether they are set matters. -/
structure TcpConnection where
  state : StateE := .kConnecting
  channel : Channel := {}
  writeCompleteCallback : Bool := false
  highWaterMarkCallback : Bool := false
  highWaterMark : ℕ := 64 * 1024 * 1024
  outputBuffer : Buffer := Buffer.new kInitialSize

namespace TcpConnection

def connected (c : TcpConnection) : Bool := c.state == .kConnected

def setState (c : TcpConnection) (s : StateE) : TcpConnection := { c with state := s }

/-- The end of `sendInLoop`: what was not written goes to the output buffer. -/
def bufferRemaining (c : TcpConnection) (rest : Bytes) : TcpConnection × List Effect :=
  let oldLen := c.outputBuffer.readableBytes
  let remaining := rest.length
  let ch := if c.channel.isWriting then c.channel else c.channel.enableWriting
  ({ c with outputBuffer := c.outputBuffer.append rest, channel := ch },
    (if c.highWaterMark ≤ oldLen + remaining ∧ oldLen < c.highWaterMark ∧
        c.highWaterMarkCallback then
      [.queueInLoop (.highWaterMarkCallback (oldLen + remaining))] else []) ++
    (if c.channel.isWriting then [] else [.updateChannel ch]))

/-- `sendInLoop` tries to write at once: nothing is waiting in front of the message. -/
def writesDirectly (c : TcpConnection) : Bool :=
  !c.channel.isWriting && c.outputBuffer.readableBytes == 0

/-- `sendInLoop(const void *message, size_t len)`. -/
def sendInLoop (c : TcpConnection) (message : Bytes) (w : WriteResult) :
    TcpConnection × List Effect :=
  if c.state = .kDisconnected then (c, [])
  else
    let nwrote := if c.writesDirectly then w.count else 0
    let remaining := message.length - nwrote
    let faultError := c.writesDirectly && w.fatal
    let written : List Effect :=
      if c.writesDirectly then
        .write message w ::
          (if !w.failed ∧ remaining = 0 ∧ c.writeCompleteCallback then
            [.queueInLoop .writeCompleteCallback] else [])
      else []
    if !faultError && remaining > 0 then
      let r := c.bufferRemaining (message.drop nwrote)
      (r.1, written ++ r.2)
    else (c, written)

/-- `send(const std::string &message)`. -/
def send (c : TcpConnection) (message : Bytes) (inLoop : Bool) (w : WriteResult) :
    TcpConnection × List Effect :=
  if c.state = .kConnected then
    if inLoop then c.sendInLoop message w
    else (c, [.queueInLoop (.sendInLoop message)])
  else (c, [])

/-- `send(Buffer *message)`; the last component is the buffer afterwards. -/
def sendBuffer (c : TcpConnection) (message : Buffer) (heap : Heap) (inLoop : Bool)
    (w : WriteResult) : (TcpConnection × List Effect) × Buffer :=
  if c.state = .kConnected then
    if inLoop then
      (c.sendInLoop (message.bytesAt heap message.writerIndex message.readableBytes) w,
        message.retrieveAll)
    else
      ((c, [.queueInLoop (.sendInLoop message.retrieveAllAsString.1)]),
        message.retrieveAllAsString.2)
  else ((c, []), message)

def shutdownInLoop (c : TcpConnection) : TcpConnection × List Effect :=
  (c, if c.channel.isWriting then [] else [.shutdownWrite])

def shutdown (c : TcpConnection) (inLoop : Bool) : TcpConnection × List Effect :=
  if c.state = .kConnected then
    let c := c.setState .kDisconnecting
    if inLoop then c.shutdownInLoop else (c, [.queueInLoop .shutdownInLoop])
  else (c, [])

def connectEstablished (c : TcpConnection) : TcpConnection × List Effect :=
  let c := c.setState .kConnected
  let c := { c with channel := c.channel.enableReading }
  (c, [.updateChannel c.channel, .connectionCallback c.connected])

/-- `none` when the assertion in `Channel::remove()` fails. -/
def connectDestroyed (c : TcpConnection) : Option (TcpConnection × List Effect) :=
  let r : TcpConnection × List Effect :=
    if c.state = .kConnected then
      let c := c.setState .kDisconnected
      let c := { c with channel := c.channel.disableAll }
      (c, [.updateChannel c.channel, .connectionCallback c.connected])
    else (c, [])
  if r.1.channel.isNoneEvent then some (r.1, r.2 ++ [.removeChannel]) else none

/-- `Channel::remove` asserts that no event is left. -/
theorem isNoneEvent_connectDestroyed {c : TcpConnection} {r : TcpConnection × List Effect}
    (h : c.connectDestroyed = some r) : r.1.channel.isNoneEvent = true := by
  unfold connectDestroyed at h
  obtain ⟨hnone, hr⟩ := Option.ite_none_right_eq_some.1 h
  cases hr
  exact hnone

/-- `handleWrite()` up to the test of `state_`; the last component says whether that test is
reached. -/
def writeOutput (c : TcpConnection) (heap : Heap) (w : WriteResult) :
    (TcpConnection × List Effect) × Bool :=
  if c.channel.isWriting then
    let out := c.outputBuffer
    let attempt : Effect := .write (out.bytesAt heap out.writerIndex out.readableBytes) w
    if 0 < w.count then
      let c := { c with outputBuffer := out.retrieve w.count }
      if c.outputBuffer.readableBytes = 0 then
        let c := { c with channel := c.channel.disableWriting }
        ((c, attempt :: .updateChannel c.channel ::
          (if c.writeCompleteCallback then [.queueInLoop .writeCompleteCallback] else [])), true)
      else ((c, [attempt]), false)
    else ((c, [attempt]), false)
  else ((c, []), false)

/-- The end of `handleWrite()`, reached when the output buffer was drained. -/
def shutdownDrained (c : TcpConnection) : TcpConnection × List Effect :=
  if c.state = .kDisconnecting then c.shutdownInLoop else (c, [])

def handleWrite (c : TcpConnection) (heap : Heap) (w : WriteResult) :
    TcpConnection × List Effect :=
  match c.writeOutput heap w with
  | ((d, es), true) => (d.shutdownDrained.1, es ++ d.shutdownDrained.2)
  | ((d, es), false) => (d, es)

def handleClose (c : TcpConnection) : TcpConnection × List Effect :=
  let c := c.setState .kDisconnected
  let c := { c with channel := c.channel.disableAll }
  (c, [.updateChannel c.channel, .connectionCallback c.connected, .closeCallback])

/-! ### What the functions do to the output stream -/

@[simp] theorem setState_state (c : TcpConnection) (s : StateE) : (c.setState s).state = s := rfl

@[simp] theorem setState_channel (c : TcpConnection) (s : StateE) :
    (c.setState s).channel = c.channel := rfl

@[simp] theorem setState_outputBuffer (c : TcpConnection) (s : StateE) :
    (c.setState s).outputBuffer = c.outputBuffer := rfl

@[simp] theorem connectEstablished_outputBuffer (c : TcpConnection) :
    c.connectEstablished.1.outputBuffer = c.outputBuffer := rfl

@[simp] theorem shutdownInLoop_fst (c : TcpConnection) : c.shutdownInLoop.1 = c := rfl

@[simp] theorem shutdownDrained_fst (c : TcpConnection) : c.shutdownDrained.1 = c := by
  unfold shutdownDrained
  split_ifs <;> rfl

@[simp] theorem accepted_shutdownInLoop (c : TcpConnection) :
    c.shutdownInLoop.2.flatMap Effect.accepted = [] := by
  unfold shutdownInLoop
  split_ifs <;> rfl

@[simp] theorem accepted_shutdownDrained (c : TcpConnection) :
    c.shutdownDrained.2.flatMap Effect.accepted = [] := by
  unfold shutdownDrained
  split_ifs
  · exact accepted_shutdownInLoop c
  · rfl

@[simp] theorem shutdown_outputBuffer (c : TcpConnection) (inLoop : Bool) :
    (c.shutdown inLoop).1.outputBuffer = c.outputBuffer := by
  unfold shutdown
  split_ifs <;> rfl

@[simp] theorem accepted_shutdown (c : TcpConnection) (inLoop : Bool) :
    (c.shutdown inLoop).2.flatMap Effect.accepted = [] := by
  unfold shutdown
  split_ifs
  · exact accepted_shutdownInLoop _
  · rfl
  · rfl

theorem handleWrite_fst (c : TcpConnection) (heap : Heap) (w : WriteResult) :
    (c.handleWrite heap w).1 = (c.writeOutput heap w).1.1 := by
  unfold handleWrite
  rcases c.writeOutput heap w with ⟨⟨d, es⟩, _ | _⟩
  · rfl
  · exact shutdownDrained_fst d

/-- Behind what it does with the output buffer `handleWrite` can only shut down. -/
theorem handleWrite_snd (c : TcpConnection) (heap : Heap) (w : WriteResult) :
    ∃ es, (c.handleWrite heap w).2 = (c.writeOutput heap w).1.2 ++ es ∧
      ∀ e ∈ es, e = .shutdownWrite := by
  unfold handleWrite
  rcases c.writeOutput heap w with ⟨⟨d, es⟩, _ | _⟩
  · exact ⟨[], (List.append_nil _).symm, by simp⟩
  · refine ⟨d.shutdownDrained.2, rfl, ?_⟩
    unfold shutdownDrained shutdownInLoop
    split_ifs <;> simp

/-- The channel waits for writability exactly while there is something to write. -/
def WriteInterest (c : TcpConnection) : Prop :=
  c.channel.isWriting = true ↔ c.outputBuffer.readable ≠ []

/-- `r` is what came out of writing on `c`: the state is the same, nothing was shut down, the write
interest is right if it was, and only user callbacks were queued. -/
structure Quiet (c : TcpConnection) (r : TcpConnection × List Effect) : Prop where
  state : r.1.state = c.state
  interest : c.WriteInterest → r.1.WriteInterest
  open_ : Effect.shutdownWrite ∉ r.2
  queued : ∀ f ∈ r.2.filterMap Effect.queued,
    f = .writeCompleteCallback ∨ ∃ len, f = .highWaterMarkCallback len

/-- The bytes `message` were added to the output stream of `c`: what the kernel accepted and what
is still buffered continue the stream. -/
structure Streamed (c : TcpConnection) (message : Bytes) (r : TcpConnection × List Effect) : Prop
    extends Quiet c r where
  stream : r.2.flatMap Effect.accepted ++ r.1.outputBuffer.readable =
    c.outputBuffer.readable ++ message

@[simp] theorem accepted_write (m : Bytes) (w : WriteResult) (h : w.Fits m.length) :
    (Effect.write m w).accepted = m.take w.count := by
  cases w <;> simp [Effect.accepted, WriteResult.count]

@[simp] theorem accepted_updateChannel (ch : Channel) :
    (Effect.updateChannel ch).accepted = [] := rfl

@[simp] theorem accepted_queueInLoop (f : Functor) : (Effect.queueInLoop f).accepted = [] := rfl

theorem bufferRemaining_streamed (c : TcpConnection) {rest : Bytes} (h : rest ≠ []) :
    Streamed c rest (c.bufferRemaining rest) := by
  refine ⟨⟨rfl, fun _ => ?_, ?_, ?_⟩, ?_⟩
  · have hread : (c.bufferRemaining rest).1.outputBuffer.readable ≠ [] := by
      show (c.outputBuffer.append rest).readable ≠ []
      rw [Buffer.readable_append]
      simp [h]
    have hwriting : (c.bufferRemaining rest).1.channel.isWriting = true := by
      simp only [bufferRemaining]
      split_ifs with hw
      · exact hw
      · rfl
    exact ⟨fun _ => hread, fun _ => hwriting⟩
  · simp only [bufferRemaining]
    split_ifs <;> simp
  · simp only [bufferRemaining]
    split_ifs <;> simp [Effect.queued]
  · have hsilent : (c.bufferRemaining rest).2.flatMap Effect.accepted = [] := by
      simp only [bufferRemaining]
      split_ifs <;> rfl
    rw [hsilent, List.nil_append]
    exact Buffer.readable_append _ _

theorem streamed_nil (c : TcpConnection) : Streamed c [] (c, []) :=
  ⟨⟨rfl, id, by simp, by simp⟩, by simp⟩

/-- A write in front of an empty output buffer takes a prefix of the message. -/
theorem Streamed.write {c : TcpConnection} {m : Bytes} {w : WriteResult} {es : List Effect}
    {r : TcpConnection × List Effect} (hr : Streamed c (m.drop w.count) r)
    (hfits : w.Fits m.length) (hnil : c.outputBuffer.readable = [])
    (hes : es = [] ∨ es = [.queueInLoop .writeCompleteCallback]) :
    Streamed c m (r.1, (.write m w :: es) ++ r.2) := by
  refine ⟨⟨hr.state, hr.interest, ?_, ?_⟩, ?_⟩
  · have hq := hr.open_
    rcases hes with rfl | rfl <;> simpa using hq
  · intro f hf
    rcases hes with rfl | rfl
    · exact hr.queued f (by simpa [Effect.queued] using hf)
    · simp only [Effect.queued, List.cons_append, List.nil_append, List.filterMap_cons,
        List.mem_cons] at hf
      rcases hf with rfl | hf
      · exact .inl rfl
      · exact hr.queued f hf
  · have hsilent : es.flatMap Effect.accepted = [] := by
      rcases hes with rfl | rfl <;> rfl
    have hstream := hr.stream
    rw [hnil, List.nil_append] at hstream ⊢
    rw [List.cons_append, List.flatMap_cons, List.flatMap_append, hsilent, List.nil_append,
      List.append_assoc, hstream, accepted_write m w hfits, List.take_append_drop]

/-- What `sendInLoop` does to the output stream, unless the write fails for good. -/
theorem sendInLoop_streamed {c : TcpConnection} {m : Bytes} {w : WriteResult}
    (hstate : c.state ≠ .kDisconnected) (hfits : w.Fits m.length) (hw : w.fatal = false) :
    Streamed c m (c.sendInLoop m w) := by
  unfold sendInLoop
  rw [if_neg hstate]
  by_cases hd : c.writesDirectly = true
  · have hnil : c.outputBuffer.readable = [] := by
      rw [Buffer.readable_eq_nil_iff]
      simp only [writesDirectly, Bool.and_eq_true, beq_iff_eq] at hd
      exact hd.2
    simp only [hd, hw, if_true, Bool.true_and, Bool.not_false]
    -- is anything left, and is the completion callback queued?
    split_ifs with hrem hcomplete hcomplete
    · exact (bufferRemaining_streamed c (by simpa using hrem)).write hfits hnil (.inr rfl)
    · exact (bufferRemaining_streamed c (by simpa using hrem)).write hfits hnil (.inl rfl)
    · have hrest : m.drop w.count = [] := by simpa using hrem
      have h := (hrest ▸ streamed_nil c).write hfits hnil (.inr rfl)
      rwa [List.append_nil] at h
    · have hrest : m.drop w.count = [] := by simpa using hrem
      have h := (hrest ▸ streamed_nil c).write hfits hnil (.inl rfl)
      rwa [List.append_nil] at h
  · rw [Bool.not_eq_true] at hd
    simp only [hd, Bool.false_and, Bool.not_false, Bool.true_and, Bool.false_eq_true, if_false,
      Nat.sub_zero, List.drop_zero, List.nil_append]
    by_cases hm : m = []
    · subst hm
      exact streamed_nil c
    · rw [if_pos (by simpa [List.length_pos_iff] using hm)]
      exact bufferRemaining_streamed c hm

/-- Nothing waits in front of the message: it is accepted or buffered, to the last byte, unless the
write fails for good. -/
theorem sendInLoop_direct {c : TcpConnection} (hstate : c.state ≠ .kDisconnected)
    (hd : c.writesDirectly = true) (m : Bytes) (w : WriteResult) :
    (c.sendInLoop m w).2.flatMap Effect.accepted ++ (c.sendInLoop m w).1.outputBuffer.readable =
      if w.fatal then [] else m := by
  have hnil : c.outputBuffer.readable = [] := by
    rw [Buffer.readable_eq_nil_iff]
    simp only [writesDirectly, Bool.and_eq_true, beq_iff_eq] at hd
    exact hd.2
  have haccepted : (Effect.write m w).accepted = m.take w.count := by
    cases w <;> simp [Effect.accepted, WriteResult.count]
  unfold sendInLoop
  rw [if_neg hstate]
  simp only [hd, if_true, Bool.true_and]
  cases hw : w.fatal with
  | true =>
    have hcount := WriteResult.count_eq_zero_of_fatal hw
    split_ifs <;> simp_all
  | false =>
    have hbuffered : ∀ rest, (c.bufferRemaining rest).2.flatMap Effect.accepted ++
        (c.bufferRemaining rest).1.outputBuffer.readable = rest := by
      intro rest
      have hread : (c.bufferRemaining rest).1.outputBuffer.readable = rest := by
        show (c.outputBuffer.append rest).readable = rest
        rw [Buffer.readable_append, hnil, List.nil_append]
      have hsilent : (c.bufferRemaining rest).2.flatMap Effect.accepted = [] := by
        simp only [bufferRemaining]
        split_ifs <;> rfl
      rw [hread, hsilent, List.nil_append]
    simp only [Bool.not_false, Bool.true_and, decide_eq_true_eq, Bool.false_eq_true, if_false]
    by_cases hrest : m.length - w.count = 0
    · have htake : m.take w.count = m := List.take_of_length_le (by omega)
      rw [if_neg (by omega)]
      split_ifs <;> simp [haccepted, htake, hnil]
    · rw [if_pos (by omega), if_neg (by omega), List.flatMap_append, List.append_assoc, hbuffered]
      simp [haccepted]

/-- `handleWrite` offers the bytes from `beginWrite()` on: those that the kernel accepts are the
first readable ones. -/
def DrainOk (c : TcpConnection) (heap : Heap) (w : WriteResult) : Prop :=
  c.channel.isWriting = true →
    c.outputBuffer.bytesAt heap c.outputBuffer.writerIndex w.count =
      c.outputBuffer.readable.take w.count

instance (c : TcpConnection) (heap : Heap) (w : WriteResult) : Decidable (c.DrainOk heap w) := by
  unfold DrainOk
  infer_instance

/-- What the kernel accepts of `handleWrite` lies behind the writer index. -/
theorem accepted_writeOutput {c : TcpConnection} (heap : Heap) {w : WriteResult}
    (hw : c.channel.isWriting = true) (hfits : w.Fits c.outputBuffer.readableBytes) :
    (c.writeOutput heap w).1.2.flatMap Effect.accepted =
      c.outputBuffer.bytesAt heap c.outputBuffer.writerIndex w.count := by
  have hle : w.count ≤ c.outputBuffer.readableBytes := WriteResult.count_le_of_fits hfits
  have hattempt := accepted_write (c.outputBuffer.bytesAt heap c.outputBuffer.writerIndex
    c.outputBuffer.readableBytes) w (by rwa [Buffer.length_bytesAt])
  rw [Buffer.take_bytesAt _ _ _ hle] at hattempt
  simp only [writeOutput, hw, if_true]
  split_ifs <;> simp only [List.flatMap_cons, List.flatMap_nil, List.append_nil, hattempt,
    accepted_updateChannel, accepted_queueInLoop]

/-- As many bytes are taken from the front of the output buffer. -/
theorem readable_writeOutput {c : TcpConnection} (heap : Heap) {w : WriteResult}
    (hw : c.channel.isWriting = true) (hfits : w.Fits c.outputBuffer.readableBytes) :
    (c.writeOutput heap w).1.1.outputBuffer.readable = c.outputBuffer.readable.drop w.count := by
  have hle : w.count ≤ c.outputBuffer.readableBytes := WriteResult.count_le_of_fits hfits
  simp only [writeOutput, hw, if_true]
  split_ifs with hpos
  · exact Buffer.readable_retrieve hle
  · exact Buffer.readable_retrieve hle
  · exact Buffer.readable_retrieve hle
  · show c.outputBuffer.readable = c.outputBuffer.readable.drop w.count
    rw [Nat.eq_zero_of_not_pos hpos, List.drop_zero]

/-- `handleWrite` keeps the output stream if and only if the bytes it takes behind the writer index
are the readable ones. -/
theorem writeOutput_stream_iff {c : TcpConnection} (heap : Heap) {w : WriteResult}
    (hfits : w.Fits c.outputBuffer.readableBytes) :
    (c.writeOutput heap w).1.2.flatMap Effect.accepted ++
        (c.writeOutput heap w).1.1.outputBuffer.readable = c.outputBuffer.readable ↔
      c.DrainOk heap w := by
  by_cases hw : c.channel.isWriting = true
  · rw [accepted_writeOutput heap hw hfits, readable_writeOutput heap hw hfits, DrainOk]
    constructor
    · intro hstream _
      exact List.append_cancel_right (hstream.trans (List.take_append_drop w.count _).symm)
    · intro hok
      rw [hok hw, List.take_append_drop]
  · simp [writeOutput, hw, DrainOk]

theorem writeOutput_quiet (c : TcpConnection) (heap : Heap) (w : WriteResult) :
    Quiet c (c.writeOutput heap w).1 := by
  by_cases hw : c.channel.isWriting = true
  · simp only [writeOutput, hw, if_true]
    by_cases hpos : 0 < w.count
    · simp only [hpos, if_true]
      by_cases hempty : (c.outputBuffer.retrieve w.count).readableBytes = 0
      · have hnil := (Buffer.readable_eq_nil_iff _).2 hempty
        simp only [hempty, if_true]
        refine ⟨rfl, fun _ => ?_, ?_, ?_⟩
        · exact ⟨fun h => (Bool.false_ne_true h).elim, fun h => absurd hnil h⟩
        · split_ifs <;> simp
        · split_ifs <;> simp [Effect.queued]
      · simp only [hempty, if_false]
        have hne : (c.outputBuffer.retrieve w.count).readable ≠ [] := fun hnil =>
          hempty ((Buffer.readable_eq_nil_iff _).1 hnil)
        exact ⟨rfl, fun _ => ⟨fun _ => hne, fun _ => hw⟩, by simp, by simp [Effect.queued]⟩
    · simp only [hpos, if_false]
      exact ⟨rfl, id, by simp, by simp [Effect.queued]⟩
  · rw [writeOutput, if_neg hw]
    exact ⟨rfl, id, by simp, by simp⟩

/-! ### The two overloads of `send` -/

/-- A direct write comes first. -/
theorem head?_sendInLoop {c : TcpConnection} (hstate : c.state ≠ .kDisconnected)
    (hd : c.writesDirectly = true) (m : Bytes) (w : WriteResult) :
    (c.sendInLoop m w).2.head? = some (.write m w) := by
  unfold sendInLoop
  rw [if_neg hstate]
  simp only [hd, if_true]
  split_ifs <;> rfl

/-- Otherwise the message goes behind what waits. -/
theorem readable_sendInLoop {c : TcpConnection} (hstate : c.state ≠ .kDisconnected)
    (hd : c.writesDirectly = false) (m : Bytes) (w : WriteResult) :
    (c.sendInLoop m w).1.outputBuffer.readable = c.outputBuffer.readable ++ m := by
  unfold sendInLoop
  rw [if_neg hstate]
  simp only [hd, Bool.false_and, Bool.not_false, Bool.true_and, Bool.false_eq_true, if_false,
    Nat.sub_zero, List.drop_zero, decide_eq_true_eq]
  split_ifs with hm
  · exact Buffer.readable_append _ _
  · have hnil : m = [] := List.length_eq_zero_iff.1 (Nat.eq_zero_of_not_pos hm)
    rw [hnil, List.append_nil]

/-- The message of `sendInLoop` can be read off what it did. -/
theorem sendInLoop_injective {c : TcpConnection} {m m' : Bytes} {w : WriteResult}
    (hstate : c.state ≠ .kDisconnected) (hlen : m.length = m'.length)
    (h : c.sendInLoop m w = c.sendInLoop m' w) : m = m' := by
  by_cases hd : c.writesDirectly = true
  · have hhead := head?_sendInLoop hstate hd m w
    rw [h, head?_sendInLoop hstate hd m' w] at hhead
    simpa using hhead.symm
  · -- the message went to the output buffer
    rw [Bool.not_eq_true] at hd
    unfold sendInLoop at h
    rw [if_neg hstate, if_neg hstate] at h
    simp only [hd, hlen, Bool.false_and, Bool.not_false, Bool.true_and, Bool.false_eq_true,
      if_false, Nat.sub_zero, List.drop_zero, List.nil_append] at h
    split_ifs at h with hrest
    · have hread := congrArg (fun p : TcpConnection × List Effect => p.1.outputBuffer.readable) h
      simp only [bufferRemaining, Buffer.readable_append] at hread
      exact List.append_cancel_left hread
    · have hzero : m'.length = 0 := by simpa using hrest
      rw [List.length_eq_zero_iff.1 (hlen.trans hzero), List.length_eq_zero_iff.1 hzero]

/-- **The overloads of `send` agree** exactly when the message is not handed on by the loop thread,
or the bytes behind the writer index repeat the readable ones. -/
theorem send_overloads_agree_iff (c : TcpConnection) (b : Buffer) (heap : Heap) (inLoop : Bool)
    (w : WriteResult) :
    ((c.sendBuffer b heap inLoop w).1 = c.send b.readable inLoop w ∧
        (c.state = .kConnected → (c.sendBuffer b heap inLoop w).2.readable = [])) ↔
      (c.state = .kConnected → inLoop = true →
        b.bytesAt heap b.writerIndex b.readableBytes = b.readable) := by
  by_cases hstate : c.state = .kConnected
  · cases inLoop with
    | false => simp [sendBuffer, send, hstate]
    | true =>
      simp only [sendBuffer, send, hstate, if_true, Buffer.readable_retrieveAll, forall_const,
        and_true]
      constructor
      · exact sendInLoop_injective (by rw [hstate]; decide) (by simp)
      · intro hbytes
        rw [hbytes]
  · simp [sendBuffer, send, hstate]

/-- The loop thread sends a buffer whose only readable byte is `a`: the zero behind it goes out. -/
theorem sendBuffer_offers_other_bytes :
    let c := ({} : TcpConnection).connectEstablished.1
    let b := (Buffer.new 2).append (Bytes.ascii "a")
    b.readable = Bytes.ascii "a" ∧
      (c.sendBuffer b (fun _ => 0) true (.accepted 1)).1 ≠ c.send b.readable true (.accepted 1) ∧
      (c.sendBuffer b (fun _ => 0) true (.accepted 1)).1.2.flatMap Effect.accepted = [0] := by
  refine ⟨by decide, fun h => ?_, by decide⟩
  exact absurd (congrArg (fun r => r.2.flatMap Effect.accepted) h) (by decide)

end TcpConnection

end TinyNetwork
