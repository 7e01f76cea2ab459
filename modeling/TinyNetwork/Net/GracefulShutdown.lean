import TinyNetwork.Lib.Trace
import TinyNetwork.Net.OutputStream

/-!
# Graceful shutdown

`shutdown_graceful`: `SHUT_WR` is issued only behind every byte of the sends that returned before
`shutdown()` was called, and no write is attempted after it, in every run in which the steps that
issue `SHUT_WR` find no accepted send in flight and `handleWrite` takes the right bytes.

`shutdownInLoop` and the end of `handleWrite` look at the output buffer only.  A message that
another thread has sent may still wait in the functor queue, and then the write side is closed in
front of it.
-/

namespace TinyNetwork

open Lts Trace
open TcpConnection (Effect)

def Event.isWrite : Event → Bool
  | effect (.write _ _) => true
  | _ => false

/-- Every byte of the message has been accepted by the kernel, in its place in the stream. -/
def Delivered (x : Sent) (trace : List Event) : Prop :=
  ∃ before after, ranSends trace = before ++ x :: after ∧
    before.flatMap Sent.message ++ x.message <+: kernelBytes trace

/-- What was sent before `shutdown()` goes out before `SHUT_WR`, and nothing after it. -/
def Graceful (trace : List Event) : Prop :=
  ∀ pre post, trace = pre ++ .effect .shutdownWrite :: post →
    (∀ e ∈ post, e.isWrite = false) ∧
      ∀ p q t x, trace = p ++ .shutdownCalled t :: q → .returned x ∈ p → Delivered x pre

namespace View

open ConnLoop (Label callbacks)

/-- The step issues `SHUT_WR`. -/
def ClosesWrite (v : View) : Label → Prop
  | .runFunctor _ => v.tasks.head? = some .shutdownInLoop ∧ v.conn.channel.isWriting = false
  | .handleWriteTest => v.conn.state = .kDisconnecting ∧ v.conn.channel.isWriting = false
  | .shutdownRun => v.conn.channel.isWriting = false
  | _ => False

/-- The step takes the right bytes from the output buffer, and issues `SHUT_WR` only when no
accepted send is in flight. -/
def ShutdownStep (v : View) (l : Label) : Prop :=
  DrainStep v.conn l ∧ (v.ClosesWrite l → ∀ t, v.inFlight t = [])

theorem interest_step {v v' : View} {l : Label} (hopen : v.conn.state ≠ .kDisconnected)
    (hv : v.conn.WriteInterest) (h : Step v l v') : v'.conn.WriteInterest := by
  cases h with
  | sendTask w x rest h hfits hw =>
    exact (TcpConnection.sendInLoop_streamed hopen hfits hw).interest hv
  | sendRun w x hcall hfits hw =>
    exact (TcpConnection.sendInLoop_streamed hopen hfits hw).interest hv
  | handleWrite heap w hfits hcall =>
    exact (TcpConnection.writeOutput_quiet v.conn heap w).interest hv
  | handleWriteTest hcall => simpa using hv
  | _ => exact hv

/-- Where `shutdownInLoop` is on its way, the connection is in `kDisconnecting`. -/
structure Stored (v : View) : Prop where
  calls : ∀ t, v.calls t = .shutdownStored → v.conn.state = .kDisconnecting
  tasks : .shutdownInLoop ∈ v.tasks → v.conn.state = .kDisconnecting

theorem shutdownInLoop_notMem_callbacks (es : List Effect) :
    Task.shutdownInLoop ∉ callbacks es := by
  simp [callbacks]

theorem disconnecting_step {v v' : View} {l : Label} (hs : v.conn.state = .kDisconnecting)
    (h : Step v l v') : v'.conn.state = .kDisconnecting := by
  rcases state_step (by rw [hs]; decide) h with hs' | hs'
  · rw [hs', hs]
  · exact hs'

/-- A `shutdownInLoop` in the queue was there before, or its caller had stored the state. -/
theorem tasks_step {v v' : View} {l : Label} (h : Step v l v')
    (hmem : .shutdownInLoop ∈ v'.tasks) :
    .shutdownInLoop ∈ v.tasks ∨ ∃ t, v.calls t = .shutdownStored := by
  cases h with
  | callback w f rest h => exact .inl (h ▸ List.mem_cons_of_mem _ hmem)
  | shutdownTask w rest h => exact .inl (h ▸ List.mem_cons_self)
  | sendTask w x rest h hfits hw =>
    have hrest : Task.shutdownInLoop ∈ rest := by
      simpa [shutdownInLoop_notMem_callbacks] using hmem
    exact .inl (h ▸ List.mem_cons_of_mem _ hrest)
  | shutdownPush t hcall => exact .inr ⟨_, hcall⟩
  | _ => exact .inl (by simpa [shutdownInLoop_notMem_callbacks] using hmem)

theorem calls_step {v v' : View} {l : Label} {t : Thread} (h : Step v l v')
    (hcall : v'.calls t = .shutdownStored) :
    v.calls t = .shutdownStored ∨ v'.conn.state = .kDisconnecting := by
  cases h with
  | move l => exact .inl hcall
  | callback w f rest h => exact .inl hcall
  | shutdownTask w rest h => exact .inl hcall
  | sendTask w x rest h hfits hw => exact .inl hcall
  | refused t m => exact .inl hcall
  | shutdownRefused t => exact .inl hcall
  | shutdownStore t' hcall' => exact .inr rfl
  | handleWrite heap w hfits hcall' => exact .inl (eq_of_update (by split_ifs <;> simp) hcall)
  | _ => exact .inl (eq_of_update (by simp) hcall)

theorem stored_step {v v' : View} {l : Label} (hv : Stored v) (h : Step v l v') : Stored v' := by
  refine ⟨fun t hcall => ?_, fun hmem => ?_⟩
  · rcases calls_step h hcall with hc | hc
    · exact disconnecting_step (hv.calls t hc) h
    · exact hc
  · rcases tasks_step h hmem with hm | ⟨t, hc⟩
    · exact disconnecting_step (hv.tasks hm) h
    · exact disconnecting_step (hv.calls t hc) h

/-- What returned was accepted. -/
structure Returned (v : View) : Prop where
  trace : ∀ x, .returned x ∈ v.trace → x ∈ acceptedSends v.trace
  calls : ∀ t x, v.calls t = .sending x ∨ v.calls t = .sent x → x ∈ acceptedSends v.trace

theorem acceptedSends_mono {v v' : View} {l : Label} (h : Step v l v') {x : Sent}
    (hx : x ∈ acceptedSends v.trace) : x ∈ acceptedSends v'.trace := by
  cases h <;> simp [hx]

theorem returned_mem {v v' : View} {l : Label} (h : Step v l v') {x : Sent}
    (hx : .returned x ∈ v'.trace) :
    .returned x ∈ v.trace ∨ ∃ t, v.calls t = .sending x ∨ v.calls t = .sent x := by
  cases h with
  | sendRun w y hcall hfits hw =>
    have hmem : .returned x ∈ v.trace ∨ x = y := by simpa using hx
    rcases hmem with hmem | rfl
    · exact .inl hmem
    · exact .inr ⟨none, .inl hcall⟩
  | sendReturn t y hcall =>
    have hmem : .returned x ∈ v.trace ∨ x = y := by simpa using hx
    rcases hmem with hmem | rfl
    · exact .inl hmem
    · exact .inr ⟨some t, .inr hcall⟩
  | _ => exact .inl (by simpa using hx)

theorem carried_step {v v' : View} {l : Label} (h : Step v l v') {t : Thread} {x : Sent}
    (hx : v'.calls t = .sending x ∨ v'.calls t = .sent x) :
    (∃ t', v.calls t' = .sending x ∨ v.calls t' = .sent x) ∨ x ∈ acceptedSends v'.trace := by
  have keep {t' : Thread} {c : Call} (hc : c ≠ .sending x) (hc' : c ≠ .sent x)
      (hx : Function.update v.calls t' c t = .sending x ∨
        Function.update v.calls t' c t = .sent x) :
      ∃ t', v.calls t' = .sending x ∨ v.calls t' = .sent x :=
    ⟨t, hx.imp (eq_of_update hc) (eq_of_update hc')⟩
  cases h with
  | accepted t' m id hcall hstate =>
    by_cases hxid : x = ⟨id, t', m⟩
    · exact .inr (by simp [hxid])
    · exact .inl (keep (by simpa using Ne.symm hxid) (by simp) hx)
  | sendPush t' y hcall =>
    by_cases hxy : x = y
    · exact .inl ⟨some t', .inl (hxy ▸ hcall)⟩
    · exact .inl (keep (by simp) (by simpa using Ne.symm hxy) hx)
  | move l => exact .inl ⟨t, hx⟩
  | callback w f rest h => exact .inl ⟨t, hx⟩
  | shutdownTask w rest h => exact .inl ⟨t, hx⟩
  | sendTask w x rest h hfits hw => exact .inl ⟨t, hx⟩
  | refused t m => exact .inl ⟨_, hx⟩
  | shutdownRefused t => exact .inl ⟨_, hx⟩
  | handleWrite heap w hfits hcall =>
    exact .inl (keep (by split_ifs <;> simp) (by split_ifs <;> simp) hx)
  | _ => exact .inl (keep (by simp) (by simp) hx)

theorem returned_step {v v' : View} {l : Label} (hv : Returned v) (h : Step v l v') :
    Returned v' := by
  refine ⟨fun x hx => ?_, fun t x hx => ?_⟩
  · rcases returned_mem h hx with hmem | ⟨t, hcall⟩
    · exact acceptedSends_mono h (hv.trace x hmem)
    · exact acceptedSends_mono h (hv.calls t x hcall)
  · rcases carried_step h hx with ⟨t', hcall⟩ | hmem
    · exact acceptedSends_mono h (hv.calls t' x hcall)
    · exact hmem

/-! ### Once the write side is closed -/

/-- Nothing is left to write and nothing more will come. -/
structure Closed (v : View) : Prop where
  state : v.conn.state = .kDisconnecting
  drained : v.conn.channel.isWriting = false
  flight : ∀ t, v.inFlight t = []

theorem Closed.not_sendTask {v : View} (hv : Closed v) {x : Sent} {rest : List Task} :
    v.tasks ≠ .sendInLoop x :: rest := by
  intro h
  have hnil := hv.flight x.thread
  simp [inFlight, h] at hnil

theorem Closed.not_sending {v : View} (hv : Closed v) {t : Thread} {x : Sent} :
    v.calls t ≠ .sending x := by
  intro h
  have hnil := hv.flight t
  simp [inFlight, h] at hnil

/-- A step issues `SHUT_WR` and does nothing else, or it appends other events; none of these is a
write or an accepted send once the write side is closed. -/
theorem trace_step {v v' : View} {l : Label} (hopen : v.conn.state ≠ .kDisconnected)
    (h : Step v l v') :
    (v.ClosesWrite l ∧ v'.trace = v.trace ++ [.effect .shutdownWrite]) ∨
      ∃ es, v'.trace = v.trace ++ es ∧ .effect .shutdownWrite ∉ es ∧
        (Closed v → ∀ e ∈ es, e.isWrite = false ∧ e.accepted? = none) := by
  cases h with
  | move l => exact .inr ⟨[], by simp⟩
  | callback w f rest h => exact .inr ⟨[], by simp⟩
  | shutdownTask w rest h =>
    cases hw : v.conn.channel.isWriting with
    | true => exact .inr ⟨[], by simp [TcpConnection.shutdownInLoop, hw]⟩
    | false => exact .inl ⟨⟨by rw [h]; rfl, hw⟩, by simp [TcpConnection.shutdownInLoop, hw]⟩
  | sendTask w x rest h hfits hw =>
    have hquiet := (TcpConnection.sendInLoop_streamed hopen hfits hw).open_
    exact .inr ⟨_, List.append_assoc _ _ _, by simpa using hquiet, fun hc =>
      absurd h hc.not_sendTask⟩
  | handleWrite heap w hfits hcall =>
    have hquiet := (TcpConnection.writeOutput_quiet v.conn heap w).open_
    refine .inr ⟨_, rfl, by simpa using hquiet, fun hc => ?_⟩
    simp [TcpConnection.writeOutput, hc.drained]
  | handleWriteTest hcall =>
    by_cases hs : v.conn.state = .kDisconnecting
    · cases hw : v.conn.channel.isWriting with
      | true =>
        exact .inr ⟨[], by simp [TcpConnection.shutdownDrained, TcpConnection.shutdownInLoop, hs,
          hw]⟩
      | false =>
        exact .inl ⟨⟨hs, hw⟩, by simp [TcpConnection.shutdownDrained,
          TcpConnection.shutdownInLoop, hs, hw]⟩
    · exact .inr ⟨[], by simp [TcpConnection.shutdownDrained, hs]⟩
  | refused t m => exact .inr ⟨[], by simp⟩
  | accepted t m id hcall hstate =>
    refine .inr ⟨_, rfl, by simp, fun hc => ?_⟩
    rw [hc.state] at hstate
    cases hstate
  | sendRun w x hcall hfits hw =>
    have hquiet := (TcpConnection.sendInLoop_streamed hopen hfits hw).open_
    refine .inr ⟨.ran x :: (v.conn.sendInLoop x.message w).2.map .effect ++ [.returned x],
      by simp, by simpa using hquiet, fun hc => absurd hcall hc.not_sending⟩
  | sendPush t x hcall => exact .inr ⟨[], by simp⟩
  | sendReturn t x hcall => exact .inr ⟨_, rfl, by simp, fun _ => by simp [Event.isWrite]⟩
  | shutdownRefused t => exact .inr ⟨_, rfl, by simp, fun _ => by simp [Event.isWrite]⟩
  | shutdownTest t hcall hstate =>
    exact .inr ⟨_, rfl, by simp, fun _ => by simp [Event.isWrite]⟩
  | shutdownStore t hcall => exact .inr ⟨[], by simp⟩
  | shutdownRun hcall =>
    cases hw : v.conn.channel.isWriting with
    | true => exact .inr ⟨[], by simp [TcpConnection.shutdownInLoop, hw]⟩
    | false => exact .inl ⟨hw, by simp [TcpConnection.shutdownInLoop, hw]⟩
  | shutdownPush t hcall => exact .inr ⟨[], by simp⟩
  | shutdownReturn t hcall => exact .inr ⟨[], by simp⟩

theorem closed_step {v v' : View} {l : Label} (hv : Closed v) (h : Step v l v') : Closed v' := by
  have hflight {v' : View} (htasks : queuedSends v'.tasks = queuedSends v.tasks)
      (hcalls : ∀ t, (v'.calls t).sending? = (v.calls t).sending?) (t : Thread) :
      v'.inFlight t = [] := by
    rw [inFlight, htasks, hcalls]
    exact hv.flight t
  refine ⟨disconnecting_step hv.state h, ?_, ?_⟩
  · cases h with
    | sendTask w x rest h hfits hw => exact absurd h hv.not_sendTask
    | sendRun w x hcall hfits hw => exact absurd hcall hv.not_sending
    | handleWrite heap w hfits hcall => simp [TcpConnection.writeOutput, hv.drained]
    | handleWriteTest hcall => simpa using hv.drained
    | _ => exact hv.drained
  · cases h with
    | sendTask w x rest h hfits hw => exact absurd h hv.not_sendTask
    | sendRun w x hcall hfits hw => exact absurd hcall hv.not_sending
    | sendPush t x hcall => exact absurd hcall hv.not_sending
    | accepted t m id hcall hstate =>
      rw [hv.state] at hstate
      cases hstate
    | callback w f rest h => exact hflight (by simp [h]) fun _ => rfl
    | shutdownTask w rest h => exact hflight (by simp [h]) fun _ => rfl
    | handleWrite heap w hfits hcall =>
      exact hflight (by simp) (sending?_update hcall rfl (by split_ifs <;> rfl))
    | handleWriteTest hcall => exact hflight (by simp) (sending?_update hcall rfl rfl)
    | shutdownRun hcall => exact hflight (by simp) (sending?_update hcall rfl rfl)
    | sendReturn t x hcall => exact hflight rfl (sending?_update hcall rfl rfl)
    | shutdownTest t hcall hstate => exact hflight rfl (sending?_update hcall rfl rfl)
    | shutdownStore t hcall => exact hflight rfl (sending?_update hcall rfl rfl)
    | shutdownPush t hcall => exact hflight (by simp) (sending?_update hcall rfl rfl)
    | shutdownReturn t hcall => exact hflight rfl (sending?_update hcall rfl rfl)
    | move l => exact hv.flight
    | refused t m => exact hv.flight
    | shutdownRefused t => exact hv.flight

/-- A step that issues `SHUT_WR` with no accepted send in flight finds nothing left to do. -/
theorem closed_of_closesWrite {v v' : View} {l : Label} (hs : Stored v) (h : Step v l v')
    (hc : v.ClosesWrite l) (hflight : ∀ t, v.inFlight t = []) : Closed v := by
  cases h with
  | shutdownTask w rest h => exact ⟨hs.tasks (h ▸ List.mem_cons_self), hc.2, hflight⟩
  | handleWriteTest hcall => exact ⟨hc.1, hc.2, hflight⟩
  | shutdownRun hcall => exact ⟨hs.calls none hcall, hc, hflight⟩
  | sendTask w x rest h hfits hw =>
    rw [ClosesWrite, h] at hc
    exact absurd hc.1 (by simp)
  | callback w f rest h =>
    rw [ClosesWrite, h] at hc
    exact absurd hc.1 (by simp)
  | _ => exact hc.elim

/-- With nothing in flight and nothing buffered, every accepted send has been delivered. -/
theorem delivered_of_closed {v : View} (hv : Closed v) (hint : Integrity v.conn v.trace)
    (hacc : Accounts v) (hwi : v.conn.WriteInterest) {x : Sent}
    (hx : x ∈ acceptedSends v.trace) : Delivered x v.trace := by
  have hnil : v.conn.outputBuffer.readable = [] := by
    by_contra hne
    have hwriting := hwi.2 hne
    rw [hv.drained] at hwriting
    cases hwriting
  have hran : x ∈ ranSends v.trace := by
    have horder := hacc.order x.thread
    rw [hv.flight, List.append_nil] at horder
    have hmem : x ∈ (acceptedSends v.trace).filter (·.thread = x.thread) :=
      List.mem_filter.2 ⟨hx, by simp⟩
    rw [horder] at hmem
    exact (List.mem_filter.1 hmem).1
  obtain ⟨before, after, hsplit⟩ := List.append_of_mem hran
  refine ⟨before, after, hsplit, after.flatMap Sent.message, ?_⟩
  rw [Integrity, hnil, List.append_nil] at hint
  rw [hint, hsplit]
  simp

/-! ### The invariant -/

/-- What precedes and what follows a `SHUT_WR`. -/
def Clean (trace : List Event) : Prop :=
  Around (fun e => e = .effect .shutdownWrite)
    (fun pre => ∀ x ∈ acceptedSends pre, Delivered x pre)
    (fun e => e.isWrite = false ∧ e.accepted? = none) trace

structure GracefulInv (v : View) : Prop where
  open_ : v.conn.state ≠ .kDisconnected
  accounts : Accounts v
  integrity : Integrity v.conn v.trace
  interest : v.conn.WriteInterest
  stored : Stored v
  returned : Returned v
  closed : .effect .shutdownWrite ∈ v.trace → Closed v
  clean : Clean v.trace

theorem gracefulInv_step {v v' : View} {l : Label} (hv : GracefulInv v) (hl : ShutdownStep v l)
    (h : Step v l v') : GracefulInv v' := by
  have hopen := open_step hv.open_ h
  have haccounts := accounts_step hv.accounts h
  have hintegrity := (integrity_step hv.open_ hv.integrity h).2 hl.1
  have hinterest := interest_step hv.open_ hv.interest h
  rcases trace_step hv.open_ h with ⟨hc, htrace⟩ | ⟨es, htrace, hes, hafter⟩
  · have hclosed : Closed v := closed_of_closesWrite hv.stored h hc (hl.2 hc)
    refine ⟨hopen, haccounts, hintegrity, hinterest, stored_step hv.stored h,
      returned_step hv.returned h, fun _ => closed_step hclosed h, ?_⟩
    rw [htrace]
    refine around_concat hv.clean (fun _ x hx => ?_) fun _ => ⟨rfl, rfl⟩
    exact delivered_of_closed hclosed hv.integrity hv.accounts hv.interest hx
  · refine ⟨hopen, haccounts, hintegrity, hinterest, stored_step hv.stored h,
      returned_step hv.returned h, fun hmem => ?_, ?_⟩
    · rw [htrace] at hmem
      rcases List.mem_append.1 hmem with hmem | hmem
      · exact closed_step (hv.closed hmem) h
      · exact absurd hmem hes
    · rw [htrace]
      refine hv.clean.append (fun e he hshut => hes (hshut ▸ he)) ?_
      rintro ⟨e, he, rfl⟩
      exact hafter (hv.closed he)

theorem graceful_of_inv {v : View} (hv : GracefulInv v) : Graceful v.trace := by
  intro pre post htrace
  obtain ⟨hdelivered, hpost⟩ := hv.clean pre _ post htrace rfl
  refine ⟨fun e he => (hpost e he).1, fun p q t x hcalled hx => hdelivered x ?_⟩
  -- nothing was accepted behind `SHUT_WR`
  have hmem : x ∈ acceptedSends v.trace :=
    hv.returned.trace x (by rw [hcalled]; exact List.mem_append_left _ hx)
  have hnone : acceptedSends post = [] :=
    List.filterMap_eq_nil_iff.2 fun e he => (hpost e he).2
  rw [htrace, acceptedSends_append, acceptedSends_cons, hnone] at hmem
  simpa using hmem

end View

/-! ### Runs -/

namespace ConnLoop

theorem gracefulInv_established {s : ConnLoop} (hs : s.Established) : s.view.GracefulInv := by
  have hinv := inv_established hs
  obtain ⟨wc, hwm, mark, hconn⟩ := hs.conn
  refine ⟨hinv.open_, hinv.accounts, integrity_established hs, ?_, ?_, ?_, ?_, ?_⟩
  · show s.conn.WriteInterest
    rw [hconn]
    constructor
    · intro hwriting
      cases hwriting
    · intro hne
      exact absurd (Buffer.readable_new kInitialSize) hne
  · refine ⟨fun t ht => ?_, fun ht => ?_⟩
    · simp [view, hs.calls] at ht
    · simp [view, hs.backlog] at ht
  · refine ⟨fun x hx => ?_, fun t x hx => ?_⟩
    · simp [view, hs.trace] at hx
    · simp [view, hs.calls] at hx
  · intro hmem
    simp [view, hs.trace] at hmem
  · rw [show s.view.trace = [] from hs.trace]
    exact around_nil

/-- **Graceful shutdown.**  In every run of an established connection whose `handleWrite`s take the
right bytes, and whose steps that issue `SHUT_WR` find no accepted send in flight, all that was
sent before `shutdown()` goes out before `SHUT_WR` and nothing is written after it. -/
theorem shutdown_graceful {s t : ConnLoop} {ls : List Label} (hs : s.Established)
    (hok : Along step (fun u l => u.view.ShutdownStep l) s ls) (h : run step s ls = some t) :
    Graceful t.trace := by
  have hinv : t.loop.QueueInv ∧ t.view.GracefulInv :=
    run_preserves_along (P := fun u => u.loop.QueueInv ∧ u.view.GracefulInv)
      (fun u l v hu hl huv => by
        obtain ⟨hqueue, hview⟩ := view_step hu.1 huv
        exact ⟨hqueue, View.gracefulInv_step hu.2 hl hview⟩)
      ⟨(inv_established hs).queue, gracefulInv_established hs⟩ hok h
  exact View.graceful_of_inv hinv.2

/-- The loop thread sends `hi`, which the kernel takes at once, and shuts the connection down. -/
theorem shutdown_graceful_sent :
    ∃ t, run step fresh [.sendTest none (Bytes.ascii "hi"), .sendRun (.accepted 2),
        .shutdownTest none, .shutdownStore none, .shutdownRun] = some t ∧
      .effect .shutdownWrite ∈ t.trace ∧ Graceful t.trace := by
  let x : Sent := ⟨0, none, Bytes.ascii "hi"⟩
  let sending : ConnLoop :=
    { fresh with
      calls := Function.update fresh.calls none (.sending x), sends := 1, trace := [.accepted x] }
  let sent : ConnLoop :=
    { sending with
      conn := (fresh.conn.sendInLoop x.message (.accepted 2)).1
      calls := Function.update sending.calls none .outside
      trace := [.accepted x, .ran x, .effect (.write x.message (.accepted 2)), .returned x] }
  let tested : ConnLoop :=
    { sent with
      calls := Function.update sent.calls none .shutdownTested
      trace := sent.trace ++ [.shutdownCalled none] }
  let stored : ConnLoop :=
    { tested with
      conn := tested.conn.setState .kDisconnecting
      calls := Function.update tested.calls none .shutdownStored }
  let closed : ConnLoop :=
    { stored with
      calls := Function.update stored.calls none .outside
      trace := stored.trace ++ [.effect .shutdownWrite] }
  have h₁ : step fresh (.sendTest none (Bytes.ascii "hi")) = some sending := rfl
  have h₂ : step sending (.sendRun (.accepted 2)) = some sent := rfl
  have h₃ : step sent (.shutdownTest none) = some tested := rfl
  have h₄ : step tested (.shutdownStore none) = some stored := rfl
  have h₅ : step stored .shutdownRun = some closed := rfl
  have hrun : run step fresh [.sendTest none (Bytes.ascii "hi"), .sendRun (.accepted 2),
      .shutdownTest none, .shutdownStore none, .shutdownRun] = some closed := by
    simp only [run_cons, h₁, h₂, h₃, h₄, h₅, Option.bind_some, run_nil]
  refine ⟨closed, hrun, by simp [closed], shutdown_graceful established_fresh ?_ hrun⟩
  rw [along_cons_of_step h₁, along_cons_of_step h₂, along_cons_of_step h₃, along_cons_of_step h₄,
    along_cons_of_step h₅]
  refine ⟨⟨trivial, fun h => h.elim⟩, ⟨trivial, fun h => h.elim⟩, ⟨trivial, fun h => h.elim⟩,
    ⟨trivial, fun h => h.elim⟩, ⟨trivial, fun _ t => ?_⟩, trivial⟩
  -- nobody is inside a send
  by_cases ht : t = none
  · subst ht
    rfl
  · have hcall : stored.view.calls t = .outside := by
      simp [view, stored, tested, sent, sending, fresh, ht]
    have hqueue : stored.view.tasks = [] := rfl
    rw [View.inFlight, hcall, hqueue]
    rfl

/-- Another thread has sent `hi`, and `send` has returned; the loop thread calls `shutdown()` before
it comes to the functor.  The write side is closed in front of the message. -/
theorem shutdown_cuts_off_queued :
    ∃ t, run step fresh [.sendTest (some 1) (Bytes.ascii "hi"), .sendPush 1, .sendReturn 1,
        .shutdownTest none, .shutdownStore none, .shutdownRun] = some t ∧
      ¬ Graceful t.trace := by
  let x : Sent := ⟨0, some 1, Bytes.ascii "hi"⟩
  have hrun : (run step fresh [.sendTest (some 1) (Bytes.ascii "hi"), .sendPush 1, .sendReturn 1,
      .shutdownTest none, .shutdownStore none, .shutdownRun]).map trace =
      some [.accepted x, .returned x, .shutdownCalled none, .effect .shutdownWrite] := rfl
  obtain ⟨t, ht, htrace⟩ := Option.map_eq_some_iff.1 hrun
  refine ⟨t, ht, fun hgraceful => ?_⟩
  rw [htrace] at hgraceful
  obtain ⟨-, hdelivered⟩ := hgraceful [.accepted x, .returned x, .shutdownCalled none] [] rfl
  obtain ⟨before, after, hran, -⟩ :=
    hdelivered [.accepted x, .returned x] [.effect .shutdownWrite] none x rfl (by simp)
  simp at hran

end ConnLoop

end TinyNetwork
