import TinyNetwork.Lib.Run
import TinyNetwork.Net.WriteInterest

/-!
# What the callbacks say about the backlog

The backlog of a connection is `outputBuffer_.readableBytes()`.  A run is made of calls of
`sendInLoop` and `handleWrite` on a connection that is not closed.

`notifications_exact`: the high-water-mark callback is queued by the steps in which the backlog
crosses the mark, with the new backlog, and the write-complete callback by the writes that leave
none.  When it is queued, the kernel has accepted every byte that was not dropped, if and only if
every `handleWrite` so far took the right bytes.
-/

namespace TinyNetwork

open Lts

namespace TcpConnection

/-- The argument of a high-water-mark callback. -/
def Effect.highWaterMark? : Effect → Option ℕ
  | queueInLoop (.highWaterMarkCallback len) => some len
  | _ => none

/-- `::write` was called and did not fail. -/
def Effect.wrote : Effect → Bool
  | write _ w => !w.failed
  | _ => false

/-- The calls that write. -/
inductive Activity
  | sendInLoop (message : Bytes) (w : WriteResult)
  | handleWrite (heap : Heap) (w : WriteResult)

def backlog (c : TcpConnection) : ℕ := c.outputBuffer.readableBytes

def act (c : TcpConnection) : Activity → TcpConnection × List Effect
  | .sendInLoop message w => c.sendInLoop message w
  | .handleWrite heap w => c.handleWrite heap w

/-- The kernel accepts at most what it is offered. -/
def Fits (c : TcpConnection) : Activity → Prop
  | .sendInLoop message w => w.Fits message.length
  | .handleWrite _ w => w.Fits c.outputBuffer.readableBytes

instance (c : TcpConnection) (l : Activity) : Decidable (c.Fits l) := by
  cases l <;> unfold Fits <;> infer_instance

def step (c : TcpConnection) (l : Activity) : Option TcpConnection :=
  if c.Fits l then some (c.act l).1 else none

/-- The bytes passed to `sendInLoop`, unless it drops them after a fatal error. -/
def passedBytes (c : TcpConnection) : Activity → Bytes
  | .sendInLoop message w => if c.faultError w then [] else message
  | .handleWrite _ _ => []

/-- What the kernel accepts. -/
def kernelBytes (c : TcpConnection) (l : Activity) : Bytes := (c.act l).2.flatMap Effect.accepted

/-- What the connection has done with: what a direct write took of the message, and what
`handleWrite` took from the output buffer. -/
def releasedBytes (c : TcpConnection) : Activity → Bytes
  | .sendInLoop message w => c.kernelBytes (.sendInLoop message w)
  | .handleWrite _ w =>
    if c.channel.isWriting then c.outputBuffer.readable.take w.count else []

/-- `handleWrite` takes the right bytes from the output buffer. -/
def DrainsRight (c : TcpConnection) : Activity → Prop
  | .sendInLoop _ _ => True
  | .handleWrite heap w => c.DrainOk heap w

/-- A step queues the callbacks that its effect on the backlog calls for, each once. -/
structure Notifies (c : TcpConnection) (l : Activity) : Prop where
  highWaterMark : (c.act l).2.filterMap Effect.highWaterMark? =
    if c.backlog < c.highWaterMark ∧ c.highWaterMark ≤ (c.act l).1.backlog then
      [(c.act l).1.backlog] else []
  writeComplete : (c.act l).2.count (.queueInLoop .writeCompleteCallback) =
    if (c.act l).2.any Effect.wrote ∧ (c.act l).1.backlog = 0 then 1 else 0

/-- An open connection with both callbacks set. -/
structure Opened (c : TcpConnection) : Prop where
  state : c.state ≠ .kDisconnected
  writeComplete : c.writeCompleteCallback = true
  highWaterMark : c.highWaterMarkCallback = true
  interest : c.WriteInterest

/-! ### What a step queues -/

theorem backlog_bufferRemaining (c : TcpConnection) (rest : Bytes) :
    (c.bufferRemaining rest).1.backlog = c.backlog + rest.length :=
  Buffer.readableBytes_append _ _

theorem highWaterMark_bufferRemaining {c : TcpConnection} (h : c.highWaterMarkCallback = true)
    (rest : Bytes) :
    (c.bufferRemaining rest).2.filterMap Effect.highWaterMark? =
      if c.backlog < c.highWaterMark ∧ c.highWaterMark ≤ (c.bufferRemaining rest).1.backlog then
        [(c.bufferRemaining rest).1.backlog] else [] := by
  rw [backlog_bufferRemaining]
  have hcross : c.highWaterMark ≤ c.outputBuffer.readableBytes + rest.length ∧
      c.outputBuffer.readableBytes < c.highWaterMark ↔
      c.backlog < c.highWaterMark ∧ c.highWaterMark ≤ c.backlog + rest.length := and_comm
  simp only [bufferRemaining, h, and_true, List.filterMap_append, hcross]
  -- the channel may be updated besides
  split_ifs <;> simp [Effect.highWaterMark?, backlog]

/-- Buffering neither writes nor completes. -/
theorem quiet_bufferRemaining (c : TcpConnection) (rest : Bytes) :
    (c.bufferRemaining rest).2.count (.queueInLoop .writeCompleteCallback) = 0 ∧
      (c.bufferRemaining rest).2.any Effect.wrote = false := by
  simp only [bufferRemaining]
  split_ifs <;> simp [Effect.wrote]

/-- Without a change of the backlog the mark is not crossed. -/
theorem not_crossed {b b' mark : ℕ} (h : b' ≤ b) : ¬ (b < mark ∧ mark ≤ b') := by omega

/-- Behind a backlog, or while the channel waits for writability, the message is only buffered. -/
theorem act_queued {c : TcpConnection} (hc : c.Opened) (hd : c.writesDirectly = false)
    (m : Bytes) (w : WriteResult) :
    c.act (.sendInLoop m w) = if 0 < m.length then c.bufferRemaining m else (c, []) := by
  simp only [act, TcpConnection.sendInLoop, if_neg hc.state, hd, Bool.false_and, Bool.not_false,
    Bool.true_and, Bool.false_eq_true, if_false, Nat.sub_zero, List.drop_zero, List.nil_append,
    decide_eq_true_eq, gt_iff_lt]

theorem notifies_queued {c : TcpConnection} (hc : c.Opened) (hd : c.writesDirectly = false)
    (m : Bytes) (w : WriteResult) : c.Notifies (.sendInLoop m w) := by
  have hact := act_queued hc hd m w
  by_cases hm : 0 < m.length
  · rw [if_pos hm] at hact
    obtain ⟨hcount, hwrote⟩ := quiet_bufferRemaining c m
    constructor
    · rw [hact]
      exact highWaterMark_bufferRemaining hc.highWaterMark m
    · rw [hact, hcount, hwrote]
      simp
  · rw [if_neg hm] at hact
    constructor
    · rw [hact, if_neg (not_crossed le_rfl)]
      rfl
    · rw [hact]
      simp

/-- A direct write, and what happens to the rest of the message. -/
theorem act_direct {c : TcpConnection} (hc : c.Opened) (hd : c.writesDirectly = true)
    (m : Bytes) (w : WriteResult) :
    c.act (.sendInLoop m w) =
      if w.fatal = false ∧ 0 < m.length - w.count then
        ((c.bufferRemaining (m.drop w.count)).1,
          .write m w :: (c.bufferRemaining (m.drop w.count)).2)
      else (c, .write m w ::
        if w.failed = false ∧ m.length - w.count = 0 then [.queueInLoop .writeCompleteCallback]
        else []) := by
  simp only [act, TcpConnection.sendInLoop, if_neg hc.state, hd, if_true, Bool.true_and,
    hc.writeComplete, and_true, Bool.and_eq_true, Bool.not_eq_true', decide_eq_true_eq, gt_iff_lt]
  by_cases hrest : w.fatal = false ∧ 0 < m.length - w.count
  · rw [if_pos hrest, if_pos hrest, if_neg fun h => hrest.2.ne' h.2]
    rfl
  · rw [if_neg hrest, if_neg hrest]

/-- `sendInLoop` in front of an empty output buffer. -/
theorem notifies_direct {c : TcpConnection} (hc : c.Opened) (hd : c.writesDirectly = true)
    (m : Bytes) (w : WriteResult) : c.Notifies (.sendInLoop m w) := by
  have hact := act_direct hc hd m w
  have hempty : c.backlog = 0 := by
    simp only [writesDirectly, Bool.and_eq_true, beq_iff_eq] at hd
    exact hd.2
  by_cases hrest : w.fatal = false ∧ 0 < m.length - w.count
  · rw [if_pos hrest] at hact
    obtain ⟨hcount, -⟩ := quiet_bufferRemaining c (m.drop w.count)
    have hleft : (c.bufferRemaining (m.drop w.count)).1.backlog ≠ 0 := by
      rw [backlog_bufferRemaining, List.length_drop]
      omega
    constructor
    · rw [hact]
      exact highWaterMark_bufferRemaining hc.highWaterMark _
    · rw [hact, if_neg fun h => hleft h.2, List.count_cons_of_ne (by simp), hcount]
  · rw [if_neg hrest] at hact
    constructor
    · rw [hact, if_neg (not_crossed le_rfl)]
      split_ifs <;> rfl
    · rw [hact]
      cases w with
      | accepted n =>
        -- nothing failed, so nothing is left
        have hzero : m.length - n = 0 := by
          by_contra hne
          exact hrest ⟨rfl, Nat.pos_of_ne_zero hne⟩
        simp [WriteResult.failed, WriteResult.count, hzero, Effect.wrote, hempty]
      | error e => simp [WriteResult.failed, Effect.wrote]

theorem notifies_handleWrite {c : TcpConnection} (hc : c.Opened) {heap : Heap} {w : WriteResult}
    (hfits : w.Fits c.outputBuffer.readableBytes) : c.Notifies (.handleWrite heap w) := by
  have hle : w.count ≤ c.outputBuffer.readableBytes := WriteResult.count_le_of_fits hfits
  obtain ⟨es, heffects, hes⟩ := c.handleWrite_snd heap w
  have hact : c.act (.handleWrite heap w) =
      ((c.writeOutput heap w).1.1, (c.writeOutput heap w).1.2 ++ es) :=
    Prod.ext (c.handleWrite_fst heap w) heffects
  have hsilent : es.filterMap Effect.highWaterMark? = [] ∧
      es.count (.queueInLoop .writeCompleteCallback) = 0 ∧ es.any Effect.wrote = false := by
    refine ⟨?_, ?_, ?_⟩
    · rw [List.filterMap_eq_nil_iff]
      intro e he
      rw [hes e he]
      rfl
    · rw [List.count_eq_zero]
      intro he
      cases hes _ he
    · rw [List.any_eq_false]
      intro e he
      rw [hes e he]
      decide
  by_cases hw : c.channel.isWriting = true
  · have hpos : 0 < c.backlog := by
      rw [backlog, ← Buffer.length_readable]
      exact List.length_pos_iff.2 (hc.interest.1 hw)
    have hbacklog : (c.writeOutput heap w).1.1.backlog = c.backlog - w.count := by
      rw [backlog, ← Buffer.length_readable, readable_writeOutput heap hw hfits, List.length_drop,
        Buffer.length_readable, backlog]
    constructor
    · rw [hact, if_neg (not_crossed (hbacklog.trans_le (Nat.sub_le _ _))), List.filterMap_append,
        hsilent.1, List.append_nil]
      simp only [writeOutput, hw, if_true]
      split_ifs <;> rfl
    · rw [hact, List.count_append, hsilent.2.1, List.any_append, hsilent.2.2, hbacklog]
      have hretrieve := Buffer.readableBytes_retrieve hle
      cases w with
      | accepted n =>
        simp only [writeOutput, hw, if_true, WriteResult.count, hc.writeComplete] at hretrieve ⊢
        by_cases hn : 0 < n
        · rw [if_pos hn, hretrieve, backlog]
          by_cases hdrained : c.outputBuffer.readableBytes - n = 0 <;>
            simp [hdrained, Effect.wrote, WriteResult.failed]
        · have hleft : ¬ c.backlog - n = 0 := by omega
          simp [hn, hleft]
      | error e =>
        simp [writeOutput, hw, WriteResult.count, Effect.wrote, WriteResult.failed]
  · have hout : (c.writeOutput heap w).1 = (c, []) := by rw [writeOutput, if_neg hw]
    constructor
    · rw [hact, hout, if_neg (not_crossed le_rfl)]
      exact hsilent.1
    · rw [hact, hout, List.nil_append, hsilent.2.1, hsilent.2.2]
      simp

/-- **One step** queues the callbacks that its effect on the backlog calls for. -/
theorem notifies_act {c : TcpConnection} (hc : c.Opened) {l : Activity} (hfits : c.Fits l) :
    c.Notifies l := by
  cases l with
  | sendInLoop m w =>
    cases hd : c.writesDirectly with
    | true => exact notifies_direct hc hd m w
    | false => exact notifies_queued hc hd m w
  | handleWrite heap w => exact notifies_handleWrite hc hfits

/-! ### The bytes of a step -/

theorem Opened.act {c : TcpConnection} (hc : c.Opened) {l : Activity} (hfits : c.Fits l) :
    (c.act l).1.Opened := by
  cases l with
  | sendInLoop m w =>
    have hkeep : (c.sendInLoop m w).1.state = c.state ∧
        (c.sendInLoop m w).1.writeCompleteCallback = c.writeCompleteCallback ∧
        (c.sendInLoop m w).1.highWaterMarkCallback = c.highWaterMarkCallback := by
      unfold TcpConnection.sendInLoop
      rw [if_neg hc.state]
      simp only
      split_ifs <;> exact ⟨rfl, rfl, rfl⟩
    exact ⟨hkeep.1.trans_ne hc.state, hkeep.2.1.trans hc.writeComplete,
      hkeep.2.2.trans hc.highWaterMark, (accounted_sendInLoop hc.state hfits).interest hc.interest⟩
  | handleWrite heap w =>
    have hkeep : (c.handleWrite heap w).1.state = c.state ∧
        (c.handleWrite heap w).1.writeCompleteCallback = c.writeCompleteCallback ∧
        (c.handleWrite heap w).1.highWaterMarkCallback = c.highWaterMarkCallback := by
      rw [handleWrite_fst]
      unfold writeOutput
      simp only
      split_ifs <;> exact ⟨rfl, rfl, rfl⟩
    exact ⟨hkeep.1.trans_ne hc.state, hkeep.2.1.trans hc.writeComplete,
      hkeep.2.2.trans hc.highWaterMark, (accounted_handleWrite heap hfits).interest hc.interest⟩

/-- What a step releases and what it leaves in the output buffer continue what was there with what
it is passed. -/
theorem readable_passedBytes {c : TcpConnection} (hc : c.Opened) {l : Activity} (hfits : c.Fits l) :
    c.outputBuffer.readable ++ c.passedBytes l =
      c.releasedBytes l ++ (c.act l).1.outputBuffer.readable := by
  cases l with
  | sendInLoop m w =>
    show c.outputBuffer.readable ++ (if c.faultError w then [] else m) =
      (c.act (.sendInLoop m w)).2.flatMap Effect.accepted ++
        (c.act (.sendInLoop m w)).1.outputBuffer.readable
    rw [faultError]
    cases hd : c.writesDirectly with
    | true =>
      cases hfatal : w.fatal with
      | true =>
        -- the message is dropped, and nothing of it was accepted
        have hact := act_direct hc hd m w
        rw [if_neg fun h => Bool.false_ne_true (h.1.symm.trans hfatal)] at hact
        have haccepted : (Effect.write m w).accepted = [] := by
          cases w with
          | accepted n => cases hfatal
          | error e => rfl
        rw [hact, Bool.true_and, if_pos rfl]
        split_ifs <;> simp [haccepted]
      | false => exact (sendInLoop_streamed hc.state hfits hfatal).stream.symm
    | false =>
      rw [act_queued hc hd]
      by_cases hm : 0 < m.length
      · rw [if_pos hm]
        exact (bufferRemaining_streamed c (List.length_pos_iff.1 hm)).stream.symm
      · have hnil : m = [] := List.length_eq_zero_iff.1 (Nat.eq_zero_of_not_pos hm)
        simp [hnil]
  | handleWrite heap w =>
    show c.outputBuffer.readable ++ [] = c.releasedBytes (.handleWrite heap w) ++
      (c.handleWrite heap w).1.outputBuffer.readable
    rw [List.append_nil, handleWrite_fst, releasedBytes]
    split_ifs with hw
    · rw [readable_writeOutput heap hw hfits, List.take_append_drop]
    · rw [writeOutput, if_neg hw, List.nil_append]

/-- As many bytes are accepted as are released, and the same ones exactly if `handleWrite` takes the
right ones. -/
theorem kernelBytes_releasedBytes (c : TcpConnection) {l : Activity} (hfits : c.Fits l) :
    (c.kernelBytes l).length = (c.releasedBytes l).length ∧
      (c.kernelBytes l = c.releasedBytes l ↔ c.DrainsRight l) := by
  cases l with
  | sendInLoop m w => exact ⟨rfl, iff_of_true rfl trivial⟩
  | handleWrite heap w =>
    have hle : w.count ≤ c.outputBuffer.readableBytes := WriteResult.count_le_of_fits hfits
    obtain ⟨es, heffects, hes⟩ := c.handleWrite_snd heap w
    have hsilent : es.flatMap Effect.accepted = [] := by
      rw [List.flatMap_eq_nil_iff]
      intro e he
      rw [hes e he]
      rfl
    have hkernel : c.kernelBytes (.handleWrite heap w) =
        (c.writeOutput heap w).1.2.flatMap Effect.accepted := by
      rw [kernelBytes, TcpConnection.act, heffects, List.flatMap_append, hsilent, List.append_nil]
    rw [hkernel, releasedBytes, DrainsRight, DrainOk]
    split_ifs with hw
    · rw [accepted_writeOutput heap hw hfits, Buffer.length_bytesAt, List.length_take,
        Buffer.length_readable, Nat.min_eq_left hle]
      exact ⟨rfl, fun heq _ => heq, fun hok => hok hw⟩
    · rw [writeOutput, if_neg hw]
      exact ⟨rfl, iff_of_true rfl fun hwriting => absurd hwriting hw⟩

/-! ### Runs -/

/-- The bytes of a run from `c` to `u`. -/
structure Course (c : TcpConnection) (ls : List Activity) (u : TcpConnection) : Prop where
  run : run step c ls = some u
  opened : u.Opened
  passed : emitted step passedBytes c ls =
    emitted step releasedBytes c ls ++ u.outputBuffer.readable
  length : (emitted step kernelBytes c ls).length = (emitted step releasedBytes c ls).length
  kernel : emitted step kernelBytes c ls = emitted step releasedBytes c ls ↔
    Along step DrainsRight c ls

theorem course_step {c u v : TcpConnection} {ls : List Activity} {l : Activity}
    (hu : Course c ls u) (h : step u l = some v) : Course c (ls ++ [l]) v := by
  have hrun : Lts.run step c (ls ++ [l]) = some v :=
    run_concat_eq_some.2 ⟨u, hu.run, h⟩
  unfold step at h
  split_ifs at h with hfits
  cases h
  obtain ⟨hlength, hiff⟩ := u.kernelBytes_releasedBytes hfits
  refine ⟨hrun, hu.opened.act hfits, ?_, ?_, ?_⟩
  · rw [emitted_concat hu.run, emitted_concat hu.run, hu.passed, List.append_assoc,
      readable_passedBytes hu.opened hfits, List.append_assoc]
  · rw [emitted_concat hu.run, emitted_concat hu.run, List.length_append, List.length_append,
      hu.length, hlength]
  · rw [emitted_concat hu.run, emitted_concat hu.run, along_concat hu.run, ← hu.kernel, ← hiff]
    exact ⟨fun heq => List.append_inj heq hu.length, fun heq => by rw [heq.1, heq.2]⟩

theorem course_run {c d : TcpConnection} (hc : c.Opened) (hempty : c.outputBuffer.readable = [])
    {ls : List Activity} (h : Lts.run step c ls = some d) : Course c ls d :=
  run_induction (P := Course c) ⟨rfl, hc, hempty.symm, rfl, iff_of_true rfl trivial⟩
    (fun _ _ _ _ hu hstep => course_step hu hstep) h

/-- **The notifications are exact.**  In a run of an open connection that starts with nothing to
write, every step queues the high-water-mark callback exactly if the backlog crosses the mark, with
the new backlog, and the write-complete callback exactly if it writes and leaves no backlog.  When
that callback is queued the kernel has accepted every byte passed to `sendInLoop` and not dropped,
if and only if every `handleWrite` until then took the right bytes. -/
theorem notifications_exact {c d : TcpConnection} (hc : c.Opened)
    (hempty : c.outputBuffer.readable = []) {ls : List Activity} (h : Lts.run step c ls = some d) :
    ∀ pre l u, pre ++ [l] <+: ls → Lts.run step c pre = some u →
      u.Notifies l ∧
        (.queueInLoop .writeCompleteCallback ∈ (u.act l).2 →
          (emitted step kernelBytes c (pre ++ [l]) = emitted step passedBytes c (pre ++ [l]) ↔
            Along step DrainsRight c (pre ++ [l]))) := by
  rintro pre l u ⟨post, rfl⟩ hpre
  obtain ⟨v, hv, -⟩ := run_append_eq_some.1 h
  have hstep : step u l = some v := by
    obtain ⟨u', hu', hlast⟩ := run_concat_eq_some.1 hv
    rw [hpre] at hu'
    cases hu'
    exact hlast
  have hu := course_run hc hempty hpre
  have hafter := course_step hu hstep
  unfold step at hstep
  split_ifs at hstep with hfits
  cases hstep
  have hnotifies := notifies_act hu.opened hfits
  refine ⟨hnotifies, fun hqueued => ?_⟩
  -- the callback is queued when nothing is left, and then everything passed was released
  have hdrained : (u.act l).1.outputBuffer.readable = [] := by
    rw [Buffer.readable_eq_nil_iff]
    by_contra hleft
    have hcount := hnotifies.writeComplete
    rw [if_neg fun hc => hleft hc.2, List.count_eq_zero] at hcount
    exact hcount hqueued
  rw [hafter.passed, hdrained, List.append_nil]
  exact hafter.kernel

/-- A connection that has just been established, with both callbacks set. -/
def notified (highWaterMark : ℕ) : TcpConnection :=
  let conn : TcpConnection :=
    { writeCompleteCallback := true
      highWaterMarkCallback := true
      highWaterMark := highWaterMark }
  conn.connectEstablished.1

theorem opened_notified (highWaterMark : ℕ) : (notified highWaterMark).Opened :=
  ⟨by simp [notified, connectEstablished], rfl, rfl,
    ⟨fun hwriting => (Bool.false_ne_true hwriting).elim, fun hne => (hne rfl).elim⟩⟩

/-- A message is written at once; of the next one three bytes are buffered, which crosses a mark of
three. -/
theorem notifications_exact_crossed :
    ∃ d, Lts.run step (notified 3) [.sendInLoop (Bytes.ascii "ab") (.accepted 2),
        .sendInLoop (Bytes.ascii "cdef") (.accepted 1)] = some d ∧ d.backlog = 3 ∧
      (notified 3).Notifies (.sendInLoop (Bytes.ascii "cdef") (.accepted 1)) ∧
      emitted step kernelBytes (notified 3) [.sendInLoop (Bytes.ascii "ab") (.accepted 2)] =
        emitted step passedBytes (notified 3) [.sendInLoop (Bytes.ascii "ab") (.accepted 2)] := by
  have hrun : (Lts.run step (notified 3) [.sendInLoop (Bytes.ascii "ab") (.accepted 2),
      .sendInLoop (Bytes.ascii "cdef") (.accepted 1)]).map backlog = some 3 := by decide +kernel
  obtain ⟨d, hd, hbacklog⟩ := Option.map_eq_some_iff.1 hrun
  have hexact := notifications_exact (opened_notified 3) rfl hd
  refine ⟨d, hd, hbacklog, (hexact [_] _ _ (List.prefix_refl _) rfl).1, ?_⟩
  exact ((hexact [] _ _ ⟨[_], rfl⟩ rfl).2 (by decide +kernel)).2 ⟨trivial, fun _ _ => trivial⟩

/-- The kernel takes one byte of `ab`; `handleWrite` gives it a zero in place of the `b`, and the
write-complete callback is queued. -/
theorem completed_without_bytes :
    ∃ u, Lts.run step (notified 3) [.sendInLoop (Bytes.ascii "ab") (.accepted 1)] = some u ∧
      .queueInLoop .writeCompleteCallback ∈ (u.act (.handleWrite (fun _ => 0) (.accepted 1))).2 ∧
      emitted step kernelBytes (notified 3) [.sendInLoop (Bytes.ascii "ab") (.accepted 1),
        .handleWrite (fun _ => 0) (.accepted 1)] = [97, 0] ∧
      emitted step passedBytes (notified 3) [.sendInLoop (Bytes.ascii "ab") (.accepted 1),
        .handleWrite (fun _ => 0) (.accepted 1)] = [97, 98] := by
  refine ⟨_, rfl, ?_, ?_, ?_⟩ <;> decide +kernel

end TcpConnection

end TinyNetwork
