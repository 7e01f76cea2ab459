import TinyNetwork.Net.ConnLoop

/-!
# The output stream of a connection

`output_stream_iff`: over any run of an established connection, `sendInLoop` runs the messages of
each thread in the order in which that thread sent them, and the bytes the kernel accepted followed
by the content of the output buffer are the messages `sendInLoop` ran, as long as every
`handleWrite` of the run takes the right bytes, and no longer.  `handleWrite` offers
`outputBuffer_.beginWrite()` to `::write` where the readable bytes start at `beginRead()`.
-/

namespace TinyNetwork

open Lts
open TcpConnection (Effect)

@[simp] def Task.sent? : Task → Option Sent
  | sendInLoop x => some x
  | _ => none

@[simp] def Call.sending? : Call → Option Sent
  | sending x => some x
  | _ => none

@[simp] def Event.accepted? : Event → Option Sent
  | accepted x => some x
  | _ => none

@[simp] def Event.ran? : Event → Option Sent
  | ran x => some x
  | _ => none

@[simp] def Event.bytes : Event → Bytes
  | effect e => e.accepted
  | _ => []

/-- The sends in a queue. -/
def queuedSends (tasks : List Task) : List Sent := tasks.filterMap Task.sent?

/-- The sends accepted, in order. -/
def acceptedSends (trace : List Event) : List Sent := trace.filterMap Event.accepted?

/-- The sends whose message was passed to `sendInLoop`, in order. -/
def ranSends (trace : List Event) : List Sent := trace.filterMap Event.ran?

/-- What the kernel accepted. -/
def kernelBytes (trace : List Event) : Bytes := trace.flatMap Event.bytes

/-- The bytes on the wire and in the output buffer are those of the messages, in order. -/
def Integrity (c : TcpConnection) (trace : List Event) : Prop :=
  kernelBytes trace ++ c.outputBuffer.readable = (ranSends trace).flatMap Sent.message

/-- A `handleWrite` takes the right bytes from the output buffer. -/
def DrainStep (c : TcpConnection) : ConnLoop.Label → Prop
  | .handleWrite heap w => c.DrainOk heap w
  | _ => True

@[simp] theorem queuedSends_append (ts ts' : List Task) :
    queuedSends (ts ++ ts') = queuedSends ts ++ queuedSends ts' := List.filterMap_append

@[simp] theorem queuedSends_cons (task : Task) (ts : List Task) :
    queuedSends (task :: ts) = task.sent?.toList ++ queuedSends ts := by
  cases task <;> rfl

@[simp] theorem queuedSends_nil : queuedSends [] = [] := rfl

@[simp] theorem queuedSends_callbacks (es : List Effect) :
    queuedSends (ConnLoop.callbacks es) = [] := by
  rw [queuedSends, ConnLoop.callbacks, List.filterMap_map, List.filterMap_eq_nil_iff]
  exact fun _ _ => rfl

@[simp] theorem acceptedSends_append (tr tr' : List Event) :
    acceptedSends (tr ++ tr') = acceptedSends tr ++ acceptedSends tr' := List.filterMap_append

@[simp] theorem ranSends_append (tr tr' : List Event) :
    ranSends (tr ++ tr') = ranSends tr ++ ranSends tr' := List.filterMap_append

@[simp] theorem kernelBytes_append (tr tr' : List Event) :
    kernelBytes (tr ++ tr') = kernelBytes tr ++ kernelBytes tr' := List.flatMap_append

@[simp] theorem acceptedSends_cons (e : Event) (tr : List Event) :
    acceptedSends (e :: tr) = e.accepted?.toList ++ acceptedSends tr := by
  cases e <;> rfl

@[simp] theorem ranSends_cons (e : Event) (tr : List Event) :
    ranSends (e :: tr) = e.ran?.toList ++ ranSends tr := by
  cases e <;> rfl

@[simp] theorem kernelBytes_cons (e : Event) (tr : List Event) :
    kernelBytes (e :: tr) = e.bytes ++ kernelBytes tr := rfl

@[simp] theorem acceptedSends_nil : acceptedSends [] = [] := rfl

@[simp] theorem ranSends_nil : ranSends [] = [] := rfl

@[simp] theorem kernelBytes_nil : kernelBytes [] = [] := rfl

@[simp] theorem acceptedSends_effects (es : List Effect) :
    acceptedSends (es.map .effect) = [] := by
  rw [acceptedSends, List.filterMap_map, List.filterMap_eq_nil_iff]
  exact fun _ _ => rfl

@[simp] theorem ranSends_effects (es : List Effect) : ranSends (es.map .effect) = [] := by
  rw [ranSends, List.filterMap_map, List.filterMap_eq_nil_iff]
  exact fun _ _ => rfl

@[simp] theorem kernelBytes_effects (es : List Effect) :
    kernelBytes (es.map .effect) = es.flatMap Effect.accepted := by
  rw [kernelBytes, List.flatMap_map]
  rfl

namespace View

open ConnLoop (Label callbacks)

/-- The state only moves to `kDisconnecting`. -/
theorem state_step {v v' : View} {l : Label} (hopen : v.conn.state ≠ .kDisconnected)
    (h : Step v l v') : v'.conn.state = v.conn.state ∨ v'.conn.state = .kDisconnecting := by
  cases h with
  | sendTask w x rest h hfits hw =>
    exact .inl (TcpConnection.sendInLoop_streamed hopen hfits hw).state
  | sendRun w x hcall hfits hw =>
    exact .inl (TcpConnection.sendInLoop_streamed hopen hfits hw).state
  | handleWrite heap w hfits hcall =>
    exact .inl (TcpConnection.writeOutput_quiet v.conn heap w).state
  | shutdownStore t hcall => exact .inr rfl
  | handleWriteTest hcall => exact .inl (by simp)
  | _ => exact .inl rfl

/-- The connection is never closed by these steps. -/
theorem open_step {v v' : View} {l : Label} (hopen : v.conn.state ≠ .kDisconnected)
    (h : Step v l v') : v'.conn.state ≠ .kDisconnected := by
  rcases state_step hopen h with hs | hs
  · rwa [hs]
  · rw [hs]
    decide

/-! ### The order of the sends -/

/-- The sends of a thread that were accepted and not passed to `sendInLoop` yet. -/
def inFlight (v : View) (t : Thread) : List Sent :=
  (queuedSends v.tasks).filter (·.thread = t) ++ (v.calls t).sending?.toList

/-- Every accepted send of a thread ran or is in flight, in order. -/
structure Accounts (v : View) : Prop where
  order : ∀ t, (acceptedSends v.trace).filter (·.thread = t) =
    (ranSends v.trace).filter (·.thread = t) ++ v.inFlight t
  owner : ∀ t x, v.calls t = .sending x → x.thread = t
  queued : ∀ x ∈ queuedSends v.tasks, x.thread ≠ none

/-- Steps that neither accept, queue nor run a send keep the accounts. -/
theorem Accounts.congr {v v' : View} (hv : Accounts v)
    (haccepted : acceptedSends v'.trace = acceptedSends v.trace)
    (hran : ranSends v'.trace = ranSends v.trace)
    (hqueued : queuedSends v'.tasks = queuedSends v.tasks)
    (hcalls : ∀ t, (v'.calls t).sending? = (v.calls t).sending?) : Accounts v' := by
  refine ⟨fun t => ?_, fun t x hx => ?_, fun x hx => hv.queued x (hqueued ▸ hx)⟩
  · rw [haccepted, hran, inFlight, hqueued, hcalls]
    exact hv.order t
  · refine hv.owner t x ?_
    have hsame := hcalls t
    rw [hx] at hsame
    cases hc : v.calls t <;> simp_all

/-- A thread found where no thread was moved to was there before. -/
theorem eq_of_update {calls : Thread → Call} {t t' : Thread} {c d : Call} (hne : c ≠ d)
    (h : Function.update calls t' c t = d) : calls t = d := by
  by_cases ht : t = t'
  · subst ht
    rw [Function.update_self] at h
    exact absurd h hne
  · rwa [Function.update_of_ne ht] at h

/-- Moving a thread between two places that are not inside an accepted send. -/
theorem sending?_update {calls : Thread → Call} {t : Thread} {c c' : Call} (hold : calls t = c)
    (hc : c.sending? = none) (hc' : c'.sending? = none) (t' : Thread) :
    (Function.update calls t c' t').sending? = (calls t').sending? := by
  by_cases ht : t' = t
  · subst ht
    rw [Function.update_self, hold, hc, hc']
  · rw [Function.update_of_ne ht]

theorem accounts_step {v v' : View} {l : Label} (hv : Accounts v) (h : Step v l v') :
    Accounts v' := by
  cases h with
  | move l => exact hv
  | refused t m => exact hv
  | callback w f rest h => exact hv.congr rfl rfl (by simp [h]) fun _ => rfl
  | shutdownTask w rest h => exact hv.congr (by simp) (by simp) (by simp [h]) fun _ => rfl
  | sendTask w x rest h hfits hw =>
    refine ⟨fun t => ?_, hv.owner, fun y hy => hv.queued y ?_⟩
    · have horder := hv.order t
      by_cases hx : x.thread = t <;> simpa [inFlight, h, hx] using horder
    · have hrest : y ∈ queuedSends rest := by simpa using hy
      rw [h, queuedSends_cons]
      exact List.mem_append_right _ hrest
  | handleWrite heap w hfits hcall =>
    refine hv.congr (by simp) (by simp) (by simp) (sending?_update hcall rfl ?_)
    split_ifs <;> rfl
  | handleWriteTest hcall =>
    exact hv.congr (by simp) (by simp) (by simp) (sending?_update hcall rfl rfl)
  | accepted t m id hcall hstate =>
    refine ⟨fun t' => ?_, fun t' x hx => ?_, hv.queued⟩
    · have horder := hv.order t'
      by_cases ht : t' = t
      · subst ht
        simp only [inFlight, hcall, Call.sending?, Option.toList_none, List.append_nil] at horder
        simp [inFlight, horder]
      · simpa [inFlight, Function.update_of_ne ht, Ne.symm ht] using horder
    · by_cases ht : t' = t
      · subst ht
        rw [setCall_calls, Function.update_self] at hx
        cases hx
        rfl
      · rw [setCall_calls, Function.update_of_ne ht] at hx
        exact hv.owner t' x hx
  | sendRun w x hcall hfits hw =>
    have hx : x.thread = none := hv.owner none x hcall
    refine ⟨fun t => ?_, fun t y hy => hv.owner t y (eq_of_update (by simp) hy),
      by simpa using hv.queued⟩
    · have horder := hv.order t
      by_cases ht : t = none
      · -- no send of the loop thread waits in the queue
        subst ht
        have hnone : (queuedSends v.tasks).filter (·.thread = none) = [] := by
          simpa [List.filter_eq_nil_iff] using hv.queued
        simp only [inFlight, hcall, hnone] at horder
        simp [inFlight, hnone, hx, horder]
      · simpa [inFlight, Function.update_of_ne ht, hx, Ne.symm ht] using horder
  | sendPush t x hcall =>
    have hx : x.thread = some t := hv.owner (some t) x hcall
    refine ⟨fun t' => ?_, fun t' y hy => hv.owner t' y (eq_of_update (by simp) hy), fun y hy => ?_⟩
    · have horder := hv.order t'
      by_cases ht : t' = some t
      · subst ht
        simpa [inFlight, hcall, hx] using horder
      · simpa [inFlight, Function.update_of_ne ht, hx, Ne.symm ht] using horder
    · have hmem : y ∈ queuedSends v.tasks ∨ y = x := by simpa using hy
      rcases hmem with hy | rfl
      · exact hv.queued y hy
      · rw [hx]
        simp
  | sendReturn t x hcall => exact hv.congr (by simp) (by simp) rfl (sending?_update hcall rfl rfl)
  | shutdownRefused t => exact hv.congr (by simp) (by simp) rfl fun _ => rfl
  | shutdownTest t hcall hstate =>
    exact hv.congr (by simp) (by simp) rfl (sending?_update hcall rfl rfl)
  | shutdownStore t hcall => exact hv.congr rfl rfl rfl (sending?_update hcall rfl rfl)
  | shutdownRun hcall =>
    exact hv.congr (by simp) (by simp) (by simp) (sending?_update hcall rfl rfl)
  | shutdownPush t hcall => exact hv.congr rfl rfl (by simp) (sending?_update hcall rfl rfl)
  | shutdownReturn t hcall => exact hv.congr rfl rfl rfl (sending?_update hcall rfl rfl)

/-! ### The bytes -/

/-- A step keeps the stream intact exactly when it takes the right bytes from the output buffer. -/
theorem integrity_step {v v' : View} {l : Label} (hopen : v.conn.state ≠ .kDisconnected)
    (hv : Integrity v.conn v.trace) (h : Step v l v') :
    Integrity v'.conn v'.trace ↔ DrainStep v.conn l := by
  unfold Integrity at hv ⊢
  cases h with
  | sendTask w x rest h hfits hw =>
    have hstream := (TcpConnection.sendInLoop_streamed hopen hfits hw).stream
    refine ⟨fun _ => trivial, fun _ => ?_⟩
    simp [hstream, ← hv]
  | sendRun w x hcall hfits hw =>
    have hstream := (TcpConnection.sendInLoop_streamed hopen hfits hw).stream
    refine ⟨fun _ => trivial, fun _ => ?_⟩
    simp [hstream, ← hv]
  | handleWrite heap w hfits hcall =>
    have hstream := TcpConnection.writeOutput_stream_iff heap hfits
    simp only [setCall_conn, setCall_trace, perform_conn, perform_trace, kernelBytes_append,
      kernelBytes_effects, ranSends_append, ranSends_effects, List.append_nil, List.append_assoc,
      ← hv, List.append_cancel_left_eq]
    exact hstream
  | _ => simpa [DrainStep] using hv

end View

/-! ### Runs -/

namespace ConnLoop

/-- What the steps of a connection keep. -/
structure Inv (s : ConnLoop) : Prop where
  queue : s.loop.QueueInv
  open_ : s.conn.state ≠ .kDisconnected
  accounts : s.view.Accounts

theorem inv_established {s : ConnLoop} (hs : s.Established) : Inv s := by
  obtain ⟨ls, hls⟩ := hs.loop
  obtain ⟨wc, hwm, mark, hconn⟩ := hs.conn
  refine ⟨EventLoop.queueInv_run hls, ?_, ⟨fun t => ?_, fun t x hx => ?_, fun x hx => ?_⟩⟩
  · rw [hconn]
    exact fun h => by cases h
  · simp [view, View.inFlight, hs.backlog, hs.calls, hs.trace]
  · simp [view, hs.calls] at hx
  · simp [view, hs.backlog] at hx

theorem inv_step {s t : ConnLoop} {l : Label} (hs : Inv s) (h : step s l = some t) : Inv t := by
  obtain ⟨hqueue, hview⟩ := view_step hs.queue h
  exact ⟨hqueue, View.open_step hs.open_ hview, View.accounts_step hs.accounts hview⟩

theorem integrity_established {s : ConnLoop} (hs : s.Established) : Integrity s.conn s.trace := by
  obtain ⟨wc, hwm, mark, hconn⟩ := hs.conn
  rw [Integrity, hs.trace, hconn]
  simpa using Buffer.readable_new kInitialSize

/-- **The output stream.**  In every run of an established connection `sendInLoop` runs the sends
of each thread in the order in which the thread made them.  What the kernel accepted, followed by
the output buffer, is what `sendInLoop` ran, in every state of the run, if and only if every
`handleWrite` of the run takes the right bytes. -/
theorem output_stream_iff {s t : ConnLoop} {ls : List Label} (hs : s.Established)
    (h : run step s ls = some t) :
    (∀ τ, (ranSends t.trace).filter (·.thread = τ) <+:
        (acceptedSends t.trace).filter (·.thread = τ)) ∧
      ((∀ ms u, ms <+: ls → run step s ms = some u → Integrity u.conn u.trace) ↔
        Along step (fun u l => DrainStep u.conn l) s ls) := by
  constructor
  · intro τ
    have hinv : Inv t := run_preserves (fun _ _ _ hs h => inv_step hs h) (inv_established hs) h
    exact ⟨t.view.inFlight τ, (hinv.accounts.order τ).symm⟩
  · refine forall_prefix_iff_along (I := Inv) (P := fun u => Integrity u.conn u.trace)
      (fun _ _ _ hs h => inv_step hs h) (fun u l v hu hint huv => ?_) (inv_established hs)
      (integrity_established hs) h
    exact View.integrity_step hu.open_ hint (view_step hu.queue huv).2

/-- A connection just established, its loop handling events. -/
def fresh : ConnLoop where
  loop := { looping := true, phase := .handling }
  conn := (TcpConnection.connectEstablished {}).1

theorem established_fresh : fresh.Established where
  conn := ⟨false, false, 64 * 1024 * 1024, rfl⟩
  loop := ⟨[.startLoop, .test, .poll false], rfl⟩
  backlog := rfl
  calls _ := rfl
  trace := rfl

/-- The loop thread sends `ab`, the kernel takes one byte and then is full for a while. -/
theorem output_stream_blocked :
    ∃ t, run step fresh [.sendTest none (Bytes.ascii "ab"), .sendRun (.accepted 1),
        .handleWrite (fun _ => 0) (.error EWOULDBLOCK)] = some t ∧
      Integrity t.conn t.trace := by
  have hsome : (run step fresh [.sendTest none (Bytes.ascii "ab"), .sendRun (.accepted 1),
      .handleWrite (fun _ => 0) (.error EWOULDBLOCK)]).isSome = true := by decide +kernel
  obtain ⟨t, ht⟩ := Option.isSome_iff_exists.1 hsome
  refine ⟨t, ht, ((output_stream_iff established_fresh ht).2.2 ?_) _ t (List.prefix_refl _) ht⟩
  refine ⟨trivial, fun _ _ => ⟨trivial, fun u _ => ⟨?_, fun _ _ => trivial⟩⟩⟩
  intro _
  simp [WriteResult.count, Buffer.bytesAt]

/-- Then the channel becomes writable and the kernel takes the rest: it gets a zero in place of
the `b`. -/
theorem output_stream_corrupted :
    ∃ t, run step fresh [.sendTest none (Bytes.ascii "ab"), .sendRun (.accepted 1),
        .handleWrite (fun _ => 0) (.accepted 1)] = some t ∧
      kernelBytes t.trace = [97, 0] ∧ ¬ Integrity t.conn t.trace := by
  have hrun : (run step fresh [.sendTest none (Bytes.ascii "ab"), .sendRun (.accepted 1),
      .handleWrite (fun _ => 0) (.accepted 1)]).map (fun t => (kernelBytes t.trace,
        t.conn.outputBuffer.readable, (ranSends t.trace).flatMap Sent.message)) =
      some ([97, 0], [], [97, 98]) := by decide +kernel
  obtain ⟨t, ht, hbytes⟩ := Option.map_eq_some_iff.1 hrun
  simp only [Prod.mk.injEq] at hbytes
  obtain ⟨hkernel, hout, hran⟩ := hbytes
  refine ⟨t, ht, hkernel, ?_⟩
  rw [Integrity, hkernel, hout, hran]
  decide

end ConnLoop

end TinyNetwork
