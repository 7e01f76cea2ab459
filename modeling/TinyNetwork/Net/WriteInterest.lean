import TinyNetwork.Net.Teardown

/-!
# The write interest and the bytes sent

Until a connection is closed its channel waits for writability exactly while the output buffer
holds something, and the bytes given to `sendInLoop` are those that `::write` accepted, those in the
buffer, and those dropped after `EPIPE` or `ECONNRESET` (`write_interest`).
-/

namespace TinyNetwork

namespace TcpConnection

/-- The number of bytes that a call of `::write` reported. -/
def Effect.nwrote : Effect → ℕ
  | write _ w => w.count
  | _ => 0

/-- `sendInLoop` gives the message up: the direct write failed with `EPIPE` or `ECONNRESET`. -/
def faultError (c : TcpConnection) (w : WriteResult) : Bool := c.writesDirectly && w.fatal

/-- `r` is what came out of a member function that was passed `passed` bytes and dropped `dropped`
of them. -/
structure Accounted (c : TcpConnection) (passed dropped : ℕ) (r : TcpConnection × List Effect) :
    Prop where
  interest : c.WriteInterest → r.1.WriteInterest
  bytes : (r.2.map Effect.nwrote).sum + r.1.outputBuffer.readableBytes + dropped =
    c.outputBuffer.readableBytes + passed

theorem sum_nwrote_eq_zero {es : List Effect} (h : ∀ e ∈ es, e.nwrote = 0) :
    (es.map Effect.nwrote).sum = 0 := by
  rw [List.sum_eq_zero_iff_forall_eq_nat]
  intro n hn
  obtain ⟨e, he, rfl⟩ := List.mem_map.1 hn
  exact h e he

/-- Functors, updates and notifications write nothing. -/
theorem accounted_same {c d : TcpConnection} (hwriting : d.channel.isWriting = c.channel.isWriting)
    (hbuffer : d.outputBuffer = c.outputBuffer) {es : List Effect}
    (hes : ∀ e ∈ es, e.nwrote = 0) : Accounted c 0 0 (d, es) := by
  refine ⟨fun hc => ?_, ?_⟩
  · unfold WriteInterest
    rw [hwriting, hbuffer]
    exact hc
  · rw [sum_nwrote_eq_zero hes, hbuffer]
    omega

/-- A direct write in front of what becomes of the rest of the message. -/
theorem Accounted.write {c : TcpConnection} {m : Bytes} {w : WriteResult} {dropped : ℕ}
    {es : List Effect} {r : TcpConnection × List Effect}
    (hr : Accounted c (m.length - w.count) dropped r) (hfits : w.Fits m.length)
    (hes : ∀ e ∈ es, e.nwrote = 0) : Accounted c m.length dropped (r.1, (.write m w :: es) ++ r.2) := by
  refine ⟨hr.interest, ?_⟩
  have hle : w.count ≤ m.length := WriteResult.count_le_of_fits hfits
  have hbytes := hr.bytes
  have hwrite : (Effect.write m w).nwrote = w.count := rfl
  simp only [List.map_append, List.sum_append, List.map_cons, List.sum_cons,
    sum_nwrote_eq_zero hes, hwrite]
  omega

theorem accounted_bufferRemaining (c : TcpConnection) {rest : Bytes} (h : rest ≠ []) :
    Accounted c rest.length 0 (c.bufferRemaining rest) := by
  refine ⟨(bufferRemaining_streamed c h).interest, ?_⟩
  have hsum : ((c.bufferRemaining rest).2.map Effect.nwrote).sum = 0 := by
    simp only [bufferRemaining]
    split_ifs <;> rfl
  have hbuffer : (c.bufferRemaining rest).1.outputBuffer.readableBytes =
      c.outputBuffer.readableBytes + rest.length := Buffer.readableBytes_append _ _
  rw [hsum, hbuffer]
  omega

theorem accounted_sendInLoop {c : TcpConnection} {m : Bytes} {w : WriteResult}
    (hstate : c.state ≠ .kDisconnected) (hfits : w.Fits m.length) :
    Accounted c m.length (if c.faultError w then m.length else 0) (c.sendInLoop m w) := by
  unfold sendInLoop faultError
  rw [if_neg hstate]
  by_cases hd : c.writesDirectly = true
  · -- the kernel is asked first
    have hcomplete : ∀ e ∈ (if !w.failed ∧ m.length - w.count = 0 ∧ c.writeCompleteCallback then
        [Effect.queueInLoop .writeCompleteCallback] else []), e.nwrote = 0 := by
      split_ifs <;> simp [Effect.nwrote]
    simp only [hd, if_true, Bool.true_and]
    generalize (if !w.failed ∧ m.length - w.count = 0 ∧ c.writeCompleteCallback then
        [Effect.queueInLoop .writeCompleteCallback] else []) = es at hcomplete ⊢
    by_cases hfatal : w.fatal = true
    · have hzero := WriteResult.count_eq_zero_of_fatal hfatal
      have hrest : Accounted c (m.length - w.count) m.length (c, []) := ⟨id, by simp; omega⟩
      have hwrite := hrest.write hfits hcomplete
      rw [List.append_nil] at hwrite
      simpa [hfatal] using hwrite
    · rw [Bool.not_eq_true] at hfatal
      simp only [hfatal, Bool.not_false, Bool.true_and, Bool.false_eq_true, if_false,
        decide_eq_true_eq]
      split_ifs with hrest
      · have hne : m.drop w.count ≠ [] := by
          rw [← List.length_pos_iff, List.length_drop]
          exact hrest
        have hbuffered := accounted_bufferRemaining c hne
        rw [List.length_drop] at hbuffered
        exact hbuffered.write hfits hcomplete
      · have hnothing : Accounted c (m.length - w.count) 0 (c, []) := ⟨id, by simp; omega⟩
        have hwrite := hnothing.write hfits hcomplete
        rwa [List.append_nil] at hwrite
  · -- something waits in front of the message
    rw [Bool.not_eq_true] at hd
    simp only [hd, Bool.false_and, Bool.not_false, Bool.true_and, Bool.false_eq_true, if_false,
      Nat.sub_zero, List.drop_zero, List.nil_append, decide_eq_true_eq]
    split_ifs with hm
    · exact accounted_bufferRemaining c (List.length_pos_iff.1 hm)
    · refine ⟨id, ?_⟩
      have hzero : m.length = 0 := Nat.eq_zero_of_not_pos hm
      simp [hzero]

theorem accounted_handleWrite {c : TcpConnection} (heap : Heap) {w : WriteResult}
    (hfits : w.Fits c.outputBuffer.readableBytes) : Accounted c 0 0 (c.handleWrite heap w) := by
  have hle : w.count ≤ c.outputBuffer.readableBytes := WriteResult.count_le_of_fits hfits
  have hout : Accounted c 0 0 (c.writeOutput heap w).1 := by
    refine ⟨(writeOutput_quiet c heap w).interest, ?_⟩
    have hretrieve := Buffer.readableBytes_retrieve hle
    simp only [writeOutput]
    split_ifs <;> simp [Effect.nwrote] <;> omega
  obtain ⟨es, heffects, hes⟩ := c.handleWrite_snd heap w
  have hsilent : (es.map Effect.nwrote).sum = 0 := by
    refine sum_nwrote_eq_zero fun e he => ?_
    rw [hes e he]
    rfl
  refine ⟨fun hc => ?_, ?_⟩
  · rw [handleWrite_fst]
    exact hout.interest hc
  · rw [handleWrite_fst, heffects, List.map_append, List.sum_append, hsilent, Nat.add_zero]
    exact hout.bytes

theorem accounted_shutdownInLoop (c : TcpConnection) : Accounted c 0 0 c.shutdownInLoop := by
  refine accounted_same rfl rfl fun e he => ?_
  split_ifs at he
  · cases he
  · rw [List.mem_singleton.1 he]
    rfl

theorem accounted_connectEstablished (c : TcpConnection) :
    Accounted c 0 0 c.connectEstablished := by
  refine accounted_same (c := c) (d := c.connectEstablished.1) rfl rfl ?_
  simp [Effect.nwrote]

end TcpConnection

/-- The number of bytes that `::write` accepted in an event. -/
def ConnEvent.nwrote : ConnEvent → ℕ
  | effect e => e.nwrote
  | messageCallback => 0

namespace Dispatch

open Lts
open TcpConnection (Effect Accounted)

/-- The number of bytes that `::write` has accepted. -/
def written (s : Dispatch) : ℕ := (s.trace.map ConnEvent.nwrote).sum

/-- The number of bytes that a step passes to `sendInLoop`. -/
def passed (s : Dispatch) : Label → ℕ
  | .sendRun _ =>
    match s.calls none with
    | .sending m => m.length
    | _ => 0
  | .runFunctor _ =>
    match s.tasks with
    | .sendInLoop m :: _ => m.length
    | _ => 0
  | _ => 0

/-- The number of bytes that `sendInLoop` drops in a step. -/
def dropped (s : Dispatch) (l : Label) : ℕ :=
  match l with
  | .sendRun w | .runFunctor w => if s.conn.faultError w then s.passed l else 0
  | _ => 0

/-- From `s` to `t` the write interest stays right and no byte is lost but those dropped. -/
structure Kept (s t : Dispatch) (passed dropped : ℕ) : Prop where
  down : s.Down → t.Down
  interest : s.conn.WriteInterest → t.conn.WriteInterest
  bytes : t.written + t.conn.outputBuffer.readableBytes + dropped =
    s.written + s.conn.outputBuffer.readableBytes + passed

theorem kept_same {s t : Dispatch} (hconn : t.conn = s.conn) (htrace : t.trace = s.trace) :
    Kept s t 0 0 := by
  refine ⟨fun h => ?_, fun h => hconn ▸ h, ?_⟩
  · unfold Down
    rw [htrace]
    exact h
  · unfold written
    rw [htrace, hconn]

/-- The queues of the loop do not matter. -/
theorem Kept.of_eq {s s' t : Dispatch} {passed dropped : ℕ} (h : Kept s' t passed dropped)
    (hconn : s'.conn = s.conn) (htrace : s'.trace = s.trace) : Kept s t passed dropped := by
  have hdown := h.down
  have hbytes := h.bytes
  unfold Down written at *
  rw [htrace] at hdown
  rw [hconn, htrace] at hbytes
  exact ⟨hdown, hconn ▸ h.interest, hbytes⟩

theorem kept_perform {s : Dispatch} (hreg : s.reg.WellFormed) {r : TcpConnection × List Effect}
    {passed dropped : ℕ} (hr : Accounted s.conn passed dropped r) :
    Kept s (s.perform r) passed dropped := by
  obtain ⟨reg, -, -, hperform⟩ := perform_eq hreg r
  rw [hperform]
  refine ⟨fun h => List.mem_append_left _ h, hr.interest, ?_⟩
  have hmap : (r.2.map ConnEvent.effect).map ConnEvent.nwrote = r.2.map Effect.nwrote :=
    List.map_map
  have hbytes := hr.bytes
  simp only [written, List.map_append, List.sum_append, hmap]
  omega

theorem down_perform {s : Dispatch} (hreg : s.reg.WellFormed) {r : TcpConnection × List Effect}
    (hr : .connectionCallback false ∈ r.2) : (s.perform r).Down := by
  obtain ⟨reg, -, -, hperform⟩ := perform_eq hreg r
  rw [hperform]
  exact List.mem_append_right _ (List.mem_map_of_mem hr)

theorem kept_finishDestroyed {s : Dispatch} (hreg : s.reg.WellFormed) :
    Kept s s.finishDestroyed 0 0 := by
  unfold finishDestroyed TcpConnection.removeChannel
  split_ifs
  · exact kept_perform hreg (TcpConnection.accounted_same rfl rfl (by simp [Effect.nwrote]))
  · exact kept_same rfl rfl

theorem kept_connectDestroyed {s : Dispatch} (hreg : s.reg.WellFormed) :
    Kept s s.connectDestroyed 0 0 := by
  unfold connectDestroyed
  split_ifs
  · exact kept_same rfl rfl
  · exact kept_finishDestroyed hreg

theorem down_handleClose {s : Dispatch} (hreg : s.reg.WellFormed) :
    (s.perform s.conn.handleClose).Down :=
  down_perform hreg (by simp [TcpConnection.handleClose, TcpConnection.connected])

theorem Sound.up_state {s : Dispatch} (hs : s.Sound) (hup : ¬ s.Down) :
    s.conn.state ≠ .kDisconnected := by
  intro hstate
  rcases hs with hyoung | hmature
  · rw [hyoung.state] at hstate
    cases hstate
  · exact hup (hmature.closed hstate).2

/-- `sendInLoop` keeps account, or the connection is already closed. -/
theorem kept_sendInLoop {s : Dispatch} (hreg : s.reg.WellFormed)
    (hstate : ¬ s.Down → s.conn.state ≠ .kDisconnected) {m : Bytes} {w : WriteResult}
    (hfits : w.Fits m.length) :
    (s.perform (s.conn.sendInLoop m w)).Down ∨
      Kept s (s.perform (s.conn.sendInLoop m w)) m.length
        (if s.conn.faultError w then m.length else 0) := by
  by_cases hdown : s.Down
  · obtain ⟨reg, -, -, hperform⟩ := perform_eq hreg (s.conn.sendInLoop m w)
    rw [hperform]
    exact .inl (List.mem_append_left _ hdown)
  · exact .inr (kept_perform hreg (TcpConnection.accounted_sendInLoop (hstate hdown) hfits))

/-- A functor keeps account, or the connection is closed afterwards. -/
theorem kept_runTask {s t : Dispatch} (hreg : s.reg.WellFormed)
    (hstate : ¬ s.Down → s.conn.state ≠ .kDisconnected) {task : LoopTask} {w : WriteResult}
    (h : s.runTask task w = some t) (rest : List LoopTask) :
    t.Down ∨ Kept s t (passed { s with tasks := task :: rest } (.runFunctor w))
      (dropped { s with tasks := task :: rest } (.runFunctor w)) := by
  cases task with
  | connectEstablished =>
    cases h
    right
    simpa [passed, dropped] using
      kept_perform hreg (TcpConnection.accounted_connectEstablished s.conn)
  | sendInLoop m =>
    simp only [runTask] at h
    split_ifs at h with hfits
    cases h
    exact kept_sendInLoop hreg hstate hfits
  | shutdownInLoop =>
    cases h
    right
    simpa [passed, dropped] using kept_perform hreg (TcpConnection.accounted_shutdownInLoop s.conn)
  | callback f =>
    cases h
    right
    simpa [passed, dropped] using kept_same rfl rfl
  | connectDestroyed =>
    cases h
    right
    simpa [passed, dropped] using kept_connectDestroyed hreg

/-- Every step keeps account, or the connection is closed afterwards. -/
theorem kept_step {s t : Dispatch} {l : Label} (hs : s.Sound) (h : StepTo s l t) :
    t.Down ∨ Kept s t (s.passed l) (s.dropped l) := by
  have hreg : s.reg.WellFormed := hs.elim Young.reg Mature.reg
  cases h with
  | poll | handleError | sendTest | sendRefused | shutdownTest | shutdownRefused | sendPush
  | shutdownPush | removeConnectionInLoop | serverGone | serverPush =>
    exact .inr (kept_same rfl rfl)
  | handleClose rest => exact .inl (down_handleClose (s := { s with handlers := rest }) hreg)
  | handleRead n rest =>
    unfold Dispatch.handleRead
    split_ifs
    · refine .inr ⟨fun h => List.mem_append_left _ h, id, ?_⟩
      simp [written, passed, dropped, ConnEvent.nwrote]
    · exact .inl (down_handleClose (s := { s with handlers := rest }) hreg)
    · exact .inr (kept_same rfl rfl)
  | handleWrite heap w rest _ _ hfits =>
    have hkept := kept_perform (s := { s with handlers := rest }) hreg
      (TcpConnection.accounted_handleWrite heap hfits)
    exact .inr (hkept.of_eq rfl rfl)
  | runFunctor w task rest _ _ _ htasks hrun =>
    have hkept := kept_runTask (s := { s with tasks := rest }) hreg
      (fun hup => hs.up_state hup) hrun rest
    have heq : ({ ({ s with tasks := rest } : Dispatch) with tasks := task :: rest } : Dispatch) = s := by
      cases s
      cases htasks
      rfl
    rw [heq] at hkept
    exact hkept.imp id fun hkept => hkept.of_eq rfl rfl
  | destroyStore =>
    have hdown : (({ s with destroying := false } : Dispatch).perform
        s.conn.destroyConnected).Down :=
      down_perform (s := { s with destroying := false }) hreg
        (by simp [TcpConnection.destroyConnected, TcpConnection.connected])
    obtain ⟨reg, -, hwf, hperform⟩ := perform_eq (s := { s with destroying := false }) hreg
      s.conn.destroyConnected
    refine .inl ((kept_finishDestroyed ?_).down hdown)
    rw [hperform]
    exact hwf
  | sendRun m w hcall hfits =>
    have hsent := kept_sendInLoop hreg (fun hup => hs.up_state hup) hfits
    simp only [dropped, passed, hcall]
    refine hsent.imp id fun hkept => ⟨hkept.down, hkept.interest, hkept.bytes⟩
  | shutdownStore th => exact .inr ⟨id, id, rfl⟩
  | shutdownRun =>
    have hkept := kept_perform hreg (TcpConnection.accounted_shutdownInLoop s.conn)
    exact .inr ⟨hkept.down, hkept.interest, hkept.bytes⟩
  | serverRun =>
    have hkept := kept_connectDestroyed
      (s := { s with serverAlive := false, inConnections := false }) hreg
    exact .inr (hkept.of_eq rfl rfl)

/-- **Write interest tracks unsent data.**  In every state of a connection before its channel is
disabled (and the user told that it is down), the channel waits for writability exactly if the
output buffer holds something, and the bytes passed to `sendInLoop` are those that `::write`
accepted, those in the output buffer and those dropped after `EPIPE` or `ECONNRESET`. -/
theorem write_interest {writeComplete highWater : Bool} {mark : ℕ} {ls : List Label} {s : Dispatch}
    (h : run step (accepted writeComplete highWater mark) ls = some s) (hup : ¬ s.Down) :
    (s.conn.channel.isWriting = true ↔ 0 < s.conn.outputBuffer.readableBytes) ∧
      tally step passed (accepted writeComplete highWater mark) ls =
        s.written + s.conn.outputBuffer.readableBytes +
          tally step dropped (accepted writeComplete highWater mark) ls := by
  have hinv : s.Sound ∧ (¬ s.Down → s.conn.WriteInterest ∧
      tally step passed (accepted writeComplete highWater mark) ls =
        s.written + s.conn.outputBuffer.readableBytes +
          tally step dropped (accepted writeComplete highWater mark) ls) := by
    refine run_history (P := fun ms u => u.Sound ∧ (¬ u.Down → u.conn.WriteInterest ∧
      tally step passed (accepted writeComplete highWater mark) ms =
        u.written + u.conn.outputBuffer.readableBytes +
          tally step dropped (accepted writeComplete highWater mark) ms))
      ⟨sound_accepted _ _ _, fun _ => ⟨?_, rfl⟩⟩ ?_ h
    · have hempty : (Buffer.new kInitialSize).readable = [] := Buffer.readable_new _
      simp [TcpConnection.WriteInterest, accepted, new, Channel.isWriting, hempty]
    · rintro ms u l v hrun ⟨hsound, hkept⟩ hstep
      refine ⟨sound_step u l v hsound hstep, fun hv => ?_⟩
      have hto := (kept_step hsound (stepTo_of_step hstep).2).resolve_left hv
      obtain ⟨hinterest, hbytes⟩ := hkept fun hu => hv (hto.down hu)
      refine ⟨hto.interest hinterest, ?_⟩
      rw [tally_concat hrun, tally_concat hrun, hbytes]
      have hstep := hto.bytes
      omega
  obtain ⟨hinterest, hbytes⟩ := hinv.2 hup
  refine ⟨hinterest.trans ?_, hbytes⟩
  rw [ne_eq, Buffer.readable_eq_nil_iff, Nat.pos_iff_ne_zero]

/-- A partial write leaves two bytes in the buffer, and a writable event takes one of them. -/
def partialWrite : List Label :=
  [.runFunctor (.accepted 0), .sendTest none [1, 2, 3], .sendRun (.accepted 1),
    .poll { EPOLLOUT := true }, .handleWrite (fun _ => 0) (.accepted 1)]

theorem write_interest_partial :
    ∃ s, run step (accepted false false 1024) partialWrite = some s ∧
      s.conn.outputBuffer.readableBytes = 1 ∧
      (s.conn.channel.isWriting = true ↔ 0 < s.conn.outputBuffer.readableBytes) ∧
      tally step passed (accepted false false 1024) partialWrite =
        s.written + s.conn.outputBuffer.readableBytes +
          tally step dropped (accepted false false 1024) partialWrite := by
  have hrun : (run step (accepted false false 1024) partialWrite).map
      (fun s => (s.conn.outputBuffer.readableBytes,
        s.trace.contains (.effect (.connectionCallback false)))) = some (1, false) := by
    decide +kernel
  obtain ⟨s, hs, hend⟩ := Option.map_eq_some_iff.1 hrun
  obtain ⟨hbuffer, hup⟩ := Prod.mk.inj hend
  refine ⟨s, hs, hbuffer, write_interest hs fun hdown => ?_⟩
  rw [List.contains_iff_mem.2 hdown] at hup
  cases hup

end Dispatch

end TinyNetwork
