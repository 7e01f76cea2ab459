import TinyNetwork.Log.AsyncLogging

/-!
# What `AsyncLogging::stop()` leaves behind

The buffers hold the appended lines in order: those taken by the last swap are written or about to
be written, those behind it lie in `buffers_` and `currentBuffer_` (`BufferInv`).  A line too long
for an empty buffer is dropped by `FixedBuffer::append` (`stored`).

`stop_keeps_lines_iff`: the lines whose `append` returned before `stop()` was called are all
written when `stop()` returns, if and only if each of them is short enough for a buffer and the
store of `running_` finds the back end in front of a swap, or finds the line in front of the latest
one.  The loop ends as soon as it reads `running_`, with whatever is in the buffers.
-/

namespace TinyNetwork

open Lts

/-- The bytes behind a list of pointers. -/
def dataOf (ps : List BufferPtr) : Bytes := ps.flatMap BufferPtr.data

@[simp] theorem dataOf_nil : dataOf [] = [] := rfl

@[simp] theorem dataOf_append (ps qs : List BufferPtr) :
    dataOf (ps ++ qs) = dataOf ps ++ dataOf qs := List.flatMap_append

@[simp] theorem dataOf_cons (p : BufferPtr) (ps : List BufferPtr) :
    dataOf (p :: ps) = BufferPtr.data p ++ dataOf ps := rfl

namespace AsyncLogging

/-- What the buffers take of a line. -/
def stored (logline : Bytes) : Bytes := if logline.length < kLargeBuffer then logline else []

/-- What the buffers took of a list of lines. -/
def stream (lines : List Bytes) : Bytes := lines.flatMap stored

@[simp] theorem stream_nil : stream [] = [] := rfl

@[simp] theorem stream_append (ls ms : List Bytes) : stream (ls ++ ms) = stream ls ++ stream ms :=
  List.flatMap_append

@[simp] theorem stream_cons (l : Bytes) (ls : List Bytes) :
    stream (l :: ls) = stored l ++ stream ls := rfl

/-- What the current iteration has still to write. -/
def toWrite (s : AsyncLogging) : Bytes :=
  match s.phase with
  | .write i => dataOf (s.buffersToWrite.drop i)
  | _ => []

/-- Where the bytes of the lines are. -/
structure BufferInv (s : AsyncLogging) : Prop where
  current : s.currentBuffer.isSome
  nextBuffer : BufferPtr.data s.nextBuffer = []
  newBuffer1 : BufferPtr.data s.newBuffer1 = []
  newBuffer2 : BufferPtr.data s.newBuffer2 = []
  spare : s.phase = .lock ∨ s.phase = .waiting → s.newBuffer1.isSome ∧ s.buffersToWrite = []
  front : dataOf s.buffers ++ BufferPtr.data s.currentBuffer = stream (s.lines.drop s.swapped)
  back : s.written ++ s.toWrite = stream (s.lines.take s.swapped)
  swapped_le : s.swapped ≤ s.lines.length

theorem bufferInv_new : BufferInv new :=
  ⟨rfl, rfl, rfl, rfl, by simp [new], rfl, rfl, le_rfl⟩

/-- A buffer that becomes current holds the line, or nothing when the line is too long. -/
theorem append_fresh {b : FixedBuffer kLargeBuffer} (hb : b.data = []) (logline : Bytes) :
    (b.append logline).data = stored logline := by
  have havail := FixedBuffer.avail_of_data_nil hb
  by_cases hshort : logline.length < kLargeBuffer
  · rw [FixedBuffer.data_append (by rwa [havail]), hb, stored, if_pos hshort]
    rfl
  · rw [FixedBuffer.append_of_le (by rw [havail]; omega), hb, stored, if_neg hshort]

/-- `append` touches the buffers of the front end only, and puts the line behind the others. -/
theorem append_spec {s : AsyncLogging} (hs : BufferInv s) (logline : Bytes) :
    ∃ current next buffers,
      s.append logline =
        { s with currentBuffer := some current, nextBuffer := next, buffers := buffers } ∧
      BufferPtr.data next = [] ∧
      dataOf buffers ++ FixedBuffer.data current =
        dataOf s.buffers ++ BufferPtr.data s.currentBuffer ++ stored logline := by
  obtain ⟨current, hcurrent⟩ := Option.isSome_iff_exists.1 hs.current
  unfold append
  rw [hcurrent]
  by_cases hroom : logline.length < current.avail
  · simp only [hroom, if_true]
    refine ⟨current.append logline, s.nextBuffer, s.buffers, rfl, hs.nextBuffer, ?_⟩
    have hshort : logline.length < kLargeBuffer := hroom.trans_le current.avail_le
    rw [List.append_assoc, stored, if_pos hshort, FixedBuffer.data_append hroom]
    rfl
  · simp only [hroom, if_false]
    refine ⟨_, none, s.buffers ++ [some current], rfl, rfl, ?_⟩
    have hempty : (s.nextBuffer.getD FixedBuffer.new).data = [] := by
      have hnext := hs.nextBuffer
      cases h : s.nextBuffer with
      | none => rfl
      | some b =>
        rw [h] at hnext
        exact hnext
    rw [append_fresh hempty, dataOf_append, dataOf_cons, dataOf_nil, List.append_nil]

theorem refill_data {p q : BufferPtr} {written rest : List BufferPtr}
    (hp : BufferPtr.data p = []) (h : refill p written = some (q, rest)) :
    BufferPtr.data q = [] := by
  unfold refill at h
  cases p with
  | some b =>
    cases h
    exact hp
  | none =>
    simp only at h
    split at h
    · cases h
      rfl
    · cases h

theorem bufferInv_swap {s : AsyncLogging} (hs : BufferInv s)
    (hphase : s.phase = .lock ∨ s.phase = .waiting) : BufferInv s.swap := by
  obtain ⟨hspare, hnil⟩ := hs.spare hphase
  have hback := hs.back
  have htoWrite : s.toWrite = [] := by
    rcases hphase with h | h <;> rw [toWrite, h]
  rw [htoWrite, List.append_nil] at hback
  refine ⟨hspare, ?_, rfl, ?_, by simp [swap], ?_, ?_, le_rfl⟩
  · show BufferPtr.data (if s.nextBuffer.isNone then s.newBuffer2 else s.nextBuffer) = []
    split_ifs
    · exact hs.newBuffer2
    · exact hs.nextBuffer
  · show BufferPtr.data (if s.nextBuffer.isNone then none else s.newBuffer2) = []
    split_ifs
    · rfl
    · exact hs.newBuffer2
  · show dataOf s.buffersToWrite ++ BufferPtr.data s.newBuffer1 = _
    rw [hnil, hs.newBuffer1]
    simp [swap]
  · show s.written ++ dataOf ((s.buffers ++ [s.currentBuffer]).drop 0) =
      stream (s.lines.take s.lines.length)
    rw [List.drop_zero, dataOf_append, dataOf_cons, dataOf_nil, List.append_nil, hs.front, hback,
      ← stream_append, List.take_append_drop, List.take_length]

theorem bufferInv_threadFunc {s t : AsyncLogging} (hs : BufferInv s)
    (h : s.threadFunc = some t) (ht : t.crashed = false) : BufferInv t := by
  have hback := hs.back
  unfold toWrite at hback
  cases threadStep_of_threadFunc h with
  | start hphase hrun =>
    rw [hphase] at hback
    exact { hs with newBuffer1 := rfl, newBuffer2 := rfl, spare := by simp, back := hback }
  | notRunning | notSpare | nullPointer | noBuffer => cases ht
  | enter hphase _ hspare1 _ hempty =>
    rw [hphase] at hback
    have hsome : s.newBuffer1.isSome := by
      cases h1 : s.newBuffer1 with
      | none => rw [h1] at hspare1; cases hspare1
      | some b => rfl
    exact { hs with spare := fun _ => ⟨hsome, List.isEmpty_iff.1 hempty⟩, back := hback }
  | leave hphase =>
    rw [hphase] at hback
    exact { hs with spare := by simp, back := hback }
  | wait hphase =>
    rw [hphase] at hback
    exact { hs with spare := fun _ => hs.spare (.inl hphase), back := hback }
  | swap hphase => exact bufferInv_swap hs hphase
  | write i b hphase hb =>
    simp only [hphase] at hback
    refine { hs with spare := by simp, back := ?_ }
    -- buffer `i` goes from what is left to what is written
    obtain ⟨hlt, hget⟩ := List.getElem?_eq_some_iff.1 hb
    rw [List.drop_eq_getElem_cons hlt, hget, dataOf_cons, ← List.append_assoc] at hback
    exact hback
  | writeEnd i hphase hend =>
    simp only [hphase, List.drop_eq_nil_of_le hend] at hback
    exact { hs with spare := by simp, back := hback }
  | recycle newBuffer1 newBuffer2 rest rest' hphase h1 h2 =>
    rw [hphase] at hback
    exact { hs with
      newBuffer1 := refill_data hs.newBuffer1 h1
      newBuffer2 := refill_data hs.newBuffer2 h2
      spare := by simp
      back := hback }

/-! ### Every step -/

/-- What holds in every run: the buffers are in order until the program crashes,
lines are named by their place, and `stop()` returns when the back end is done. -/
structure Inv (s : AsyncLogging) : Prop where
  buffers : s.crashed = false → BufferInv s
  crashed : s.crashed = true → s.phase ≠ .exited
  calls : ∀ t i, s.calls t = some i → i < s.lines.length
  returned : ∀ i ∈ s.returned, i < s.lines.length
  due : ∀ i ∈ s.due, i < s.lines.length
  starting : s.main = .fresh ∨ s.main = .starting → s.phase = .notStarted
  stopped : s.main = .stopped → s.phase = .exited

theorem inv_new : Inv new := by
  refine ⟨fun _ => bufferInv_new, ?_, ?_, ?_, ?_, ?_, ?_⟩ <;> simp [new]

/-- The back end keeps the history of the front end, and stops where it crashes. -/
structure Frame (s t : AsyncLogging) : Prop where
  lines : t.lines = s.lines
  calls : t.calls = s.calls
  returned : t.returned = s.returned
  due : t.due = s.due
  main : t.main = s.main
  running : t.running = s.running
  started : s.phase ≠ .notStarted ∧ s.phase ≠ .exited
  crashed : t.crashed = true → s.crashed = true ∨ t.phase = s.phase

theorem threadFunc_frame {s t : AsyncLogging} (h : s.threadFunc = some t) : Frame s t := by
  cases threadStep_of_threadFunc h with
  | notRunning hphase | notSpare hphase | nullPointer i hphase | noBuffer hphase =>
    exact ⟨rfl, rfl, rfl, rfl, rfl, rfl, by simp [hphase], fun _ => .inr rfl⟩
  | swap hphase =>
    refine ⟨rfl, rfl, rfl, rfl, rfl, rfl, ?_, .inl⟩
    rcases hphase with hphase | hphase <;> simp [hphase]
  | start hphase | enter hphase | leave hphase | wait hphase | write i b hphase
    | writeEnd i hphase | recycle _ _ _ _ hphase =>
    exact ⟨rfl, rfl, rfl, rfl, rfl, rfl, by simp [hphase], .inl⟩

theorem live_of_step {s t : AsyncLogging} {l : Label} (h : step s l = some t) :
    ¬ s.crashed = true := by
  intro hc
  unfold step at h
  rw [if_pos hc] at h
  cases h

theorem inv_append {s t : AsyncLogging} {tid : FrontId} {logline : Bytes} (hs : Inv s)
    (h : step s (.append tid logline) = some t) : Inv t := by
  have hlive := live_of_step h
  have hbuf := hs.buffers (Bool.eq_false_iff.2 hlive)
  obtain ⟨current, next, buffers, happend, hnext, hdata⟩ := append_spec hbuf logline
  rw [step, if_neg hlive, happend] at h
  simp only at h
  split_ifs at h with hidle
  cases h
  have hlt : ∀ i, i < s.lines.length → i < (s.lines ++ [logline]).length := by
    intro i hi
    rw [List.length_append]
    omega
  have hbuf' : BufferInv { s with
      currentBuffer := some current
      nextBuffer := next
      buffers := buffers
      lines := s.lines ++ [logline]
      calls := Function.update s.calls tid (some s.lines.length) } := by
    refine { hbuf with
      current := rfl, nextBuffer := hnext, front := ?_, back := ?_, swapped_le := ?_ }
    · refine hdata.trans ?_
      rw [hbuf.front, List.drop_append_of_le_length hbuf.swapped_le, stream_append, stream_cons,
        stream_nil, List.append_nil]
    · refine hbuf.back.trans ?_
      rw [List.take_append_of_le_length hbuf.swapped_le]
    · rw [List.length_append]
      exact hbuf.swapped_le.trans (Nat.le_add_right _ _)
  refine { hs with
    buffers := fun _ => hbuf', calls := fun t' i hi => ?_
    returned := fun i hi => hlt i (hs.returned i hi), due := fun i hi => hlt i (hs.due i hi) }
  by_cases ht : t' = tid
  · subst ht
    simp only [Function.update_self, Option.some.injEq] at hi
    simp [← hi]
  · simp only [Function.update_of_ne ht] at hi
    exact hlt i (hs.calls t' i hi)

theorem inv_step {s t : AsyncLogging} {l : Label} (hs : Inv s)
    (h : step s l = some t) : Inv t := by
  have hlive := live_of_step h
  have hbuf := hs.buffers (Bool.eq_false_iff.2 hlive)
  cases l with
  | append tid logline => exact inv_append hs h
  | appendReturn tid =>
    rw [step, if_neg hlive] at h
    split at h
    · rename_i i hi
      cases h
      refine { hs with
        buffers := fun _ => { hbuf with }, calls := fun t' j hj => ?_, returned := fun j hj => ?_ }
      · by_cases ht : t' = tid
        · subst ht
          simp at hj
        · simp only [Function.update_of_ne ht] at hj
          exact hs.calls t' j hj
      · rcases List.mem_append.1 hj with hj | hj
        · exact hs.returned j hj
        · rw [List.mem_singleton.1 hj]
          exact hs.calls tid i hi
    · cases h
  | startStore =>
    rw [step, if_neg hlive] at h
    split_ifs at h with hmain
    cases h
    exact { hs with
      buffers := fun _ => { hbuf with }
      starting := fun _ => hs.starting (.inl hmain)
      stopped := by simp }
  | startThread =>
    rw [step, if_neg hlive] at h
    split_ifs at h with hmain
    cases h
    have hback := hbuf.back
    rw [toWrite, hs.starting (.inr hmain)] at hback
    exact { hs with
      buffers := fun _ => { hbuf with spare := by simp, back := hback }
      crashed := by simp
      starting := by simp
      stopped := by simp }
  | stopCall =>
    rw [step, if_neg hlive] at h
    split_ifs at h with hmain
    cases h
    exact { hs with
      buffers := fun _ => { hbuf with }
      due := hs.returned
      starting := by simp
      stopped := by simp }
  | stopStore =>
    rw [step, if_neg hlive] at h
    split_ifs at h with hmain
    cases h
    exact { hs with
      buffers := fun _ => { hbuf with }
      starting := by simp
      stopped := by simp }
  | stopJoin =>
    rw [step, if_neg hlive] at h
    split_ifs at h with hmain
    cases h
    exact { hs with
      buffers := fun _ => { hbuf with }
      starting := by simp
      stopped := fun _ => hmain.2 }
  | threadFunc =>
    rw [step, if_neg hlive] at h
    have hf := threadFunc_frame h
    refine ⟨fun ht => bufferInv_threadFunc hbuf h ht, fun ht => ?_, ?_, ?_, ?_, fun hmain => ?_,
      fun hmain => ?_⟩
    · rcases hf.crashed ht with hc | hphase
      · exact absurd hc hlive
      · rw [hphase]
        exact hf.started.2
    · rw [hf.calls, hf.lines]
      exact hs.calls
    · rw [hf.returned, hf.lines]
      exact hs.returned
    · rw [hf.due, hf.lines]
      exact hs.due
    · rw [hf.main] at hmain
      exact absurd (hs.starting hmain) hf.started.1
    · rw [hf.main] at hmain
      exact absurd (hs.stopped hmain) hf.started.2

/-! ### The lines of a `stop()` -/

/-- Line `i` went into the buffers in full, and its bytes stand at their place in what was
written. -/
def Passed (s : AsyncLogging) (i : ℕ) : Prop :=
  ∃ logline, s.lines[i]? = some logline ∧ stored logline = logline ∧
    (s.written.drop (stream (s.lines.take i)).length).take logline.length = logline

/-- Line `i` lies in front of the latest swap, or the back end is on its way to another one. -/
def Reached (s : AsyncLogging) (i : ℕ) : Prop :=
  s.phase = .lock ∨ s.phase = .waiting ∨ i < s.swapped

/-- Line `i` fits into a buffer and is reached by the back end, if it has any bytes. -/
def InTime (s : AsyncLogging) (i : ℕ) : Prop :=
  ∃ logline, s.lines[i]? = some logline ∧ logline.length < kLargeBuffer ∧
    (s.Reached i ∨ logline = [])

theorem stored_eq_iff {logline : Bytes} :
    stored logline = logline ↔ logline.length < kLargeBuffer := by
  unfold stored
  refine ⟨fun h => ?_, fun h => if_pos h⟩
  by_contra hlong
  rw [if_neg hlong] at h
  rw [← h] at hlong
  exact hlong (by decide)

/-- After `n` lines, line `i` stands at its place when it is one of them or empty. -/
theorem stream_place {lines : List Bytes} {i : ℕ} {logline : Bytes}
    (hi : lines[i]? = some logline) (hstored : stored logline = logline) (n : ℕ) :
    ((stream (lines.take n)).drop (stream (lines.take i)).length).take logline.length = logline ↔
      i < n ∨ logline = [] := by
  obtain ⟨hlt, hget⟩ := List.getElem?_eq_some_iff.1 hi
  by_cases hin : i < n
  · -- the line lies between the lines in front of it and the rest of the first `n`
    have hsplit : lines.take n = lines.take i ++ logline :: (lines.take n).drop (i + 1) := by
      have hlen : i < (lines.take n).length := by
        rw [List.length_take]
        omega
      have hcut := List.take_append_drop i (lines.take n)
      rw [List.take_take, Nat.min_eq_left hin.le, List.drop_eq_getElem_cons hlen,
        List.getElem_take, hget] at hcut
      exact hcut.symm
    have hstream : stream (lines.take n) =
        stream (lines.take i) ++ (logline ++ stream ((lines.take n).drop (i + 1))) := by
      conv_lhs => rw [hsplit]
      rw [stream_append, stream_cons, hstored]
    rw [hstream, List.drop_left, List.take_left]
    exact iff_of_true rfl (.inl hin)
  · have hle : n ≤ i := Nat.le_of_not_lt hin
    have hshorter : (stream (lines.take n)).length ≤ (stream (lines.take i)).length := by
      rw [← List.take_append_drop n (lines.take i), List.take_take, Nat.min_eq_left hle,
        stream_append, List.length_append]
      exact Nat.le_add_right _ _
    rw [List.drop_eq_nil_of_le hshorter, List.take_nil]
    exact ⟨fun h => .inr h.symm, fun h => h.elim (absurd · hin) Eq.symm⟩

/-- Once `running_` is false, a step of the back end reaches no line that was not reached. -/
theorem reached_threadFunc {s t : AsyncLogging} {i : ℕ} (hrun : s.running = false)
    (h : s.threadFunc = some t) (ht : ¬ t.crashed = true) (hi : i < s.lines.length) :
    t.Reached i ↔ s.Reached i := by
  unfold Reached
  cases threadStep_of_threadFunc h with
  | start _ hrunning | enter _ hrunning =>
    rw [hrun] at hrunning
    cases hrunning
  | notRunning | notSpare | nullPointer | noBuffer => exact absurd rfl ht
  | leave hphase => simp [hphase]
  | wait hphase => simp [hphase]
  | swap hphase =>
    -- the test of `running_` is behind, so this iteration swaps
    refine iff_of_true (.inr (.inr hi)) ?_
    rcases hphase with hphase | hphase <;> simp [hphase]
  | write j b hphase => simp [hphase]
  | writeEnd j hphase => simp [hphase]
  | recycle _ _ _ _ hphase => simp [hphase]

/-- `stop()` has stored `running_`. -/
def Stopping (s : AsyncLogging) : Prop :=
  s.running = false ∧ (s.main = .joining ∨ s.main = .stopped)

/-- After the store, no step changes which of the lines are in time. -/
theorem inTime_step {s t : AsyncLogging} {l : Label} (hinv : Inv s) (hs : Stopping s)
    (h : step s l = some t) (ht : ¬ t.crashed = true) :
    Stopping t ∧ t.due = s.due ∧ ∀ i < s.lines.length, (t.InTime i ↔ s.InTime i) := by
  have hlive := live_of_step h
  obtain ⟨hrun, hmain⟩ := hs
  have hpast : s.main ≠ .fresh ∧ s.main ≠ .starting ∧ s.main ≠ .started ∧ s.main ≠ .stopping := by
    rcases hmain with hmain | hmain <;> simp [hmain]
  cases l with
  | append tid logline =>
    obtain ⟨current, next, buffers, happend, -, -⟩ :=
      append_spec (hinv.buffers (Bool.eq_false_iff.2 hlive)) logline
    rw [step, if_neg hlive, happend] at h
    simp only at h
    split_ifs at h with hidle
    cases h
    refine ⟨⟨hrun, hmain⟩, rfl, fun i hi => ?_⟩
    simp only [InTime, Reached, List.getElem?_append_left hi]
  | appendReturn tid =>
    rw [step, if_neg hlive] at h
    split at h
    · cases h
      exact ⟨⟨hrun, hmain⟩, rfl, fun _ _ => Iff.rfl⟩
    · cases h
  | startStore => simp [step, hlive, hpast.1] at h
  | startThread => simp [step, hlive, hpast.2.1] at h
  | stopCall => simp [step, hlive, hpast.2.2.1] at h
  | stopStore => simp [step, hlive, hpast.2.2.2] at h
  | stopJoin =>
    rw [step, if_neg hlive] at h
    split_ifs at h
    cases h
    exact ⟨⟨hrun, .inr rfl⟩, rfl, fun _ _ => Iff.rfl⟩
  | threadFunc =>
    rw [step, if_neg hlive] at h
    have hf := threadFunc_frame h
    refine ⟨⟨hf.running.trans hrun, hf.main.symm ▸ hmain⟩, hf.due, fun i hi => ?_⟩
    have hreached := reached_threadFunc hrun h ht hi
    simp only [InTime, hf.lines, hreached]

/-- When `stop()` has returned, the lines passed are those in time. -/
theorem passed_iff_inTime {s : AsyncLogging} (hs : Inv s) (hstop : s.main = .stopped) (i : ℕ) :
    s.Passed i ↔ s.InTime i := by
  have hexited := hs.stopped hstop
  have hback := (hs.buffers (Bool.eq_false_iff.2 fun hc => hs.crashed hc hexited)).back
  rw [toWrite, hexited, List.append_nil] at hback
  refine exists_congr fun logline => and_congr_right fun hi => ?_
  rw [stored_eq_iff]
  refine and_congr_right fun hshort => ?_
  rw [hback, stream_place hi (stored_eq_iff.2 hshort)]
  simp [Reached, hexited]

/-- Every line whose `append` returned before `stop()` was called is passed to `LogFile::append` by
the time `stop()` returns, if and only if the store of `running_` finds each of them in time. -/
theorem stop_keeps_lines_iff {pre post : List Label} {s t : AsyncLogging}
    (hpre : run step new pre = some s) (h : run step s (.stopStore :: post) = some t)
    (hstop : t.main = .stopped) :
    (∀ i ∈ t.due, t.Passed i) ↔ ∀ i ∈ s.due, s.InTime i := by
  have hinv : Inv s := run_preserves (fun _ _ _ hu hstep => inv_step hu hstep) inv_new hpre
  obtain ⟨u, hstore, hpost⟩ := run_cons_eq_some.1 h
  have hinvt : Inv t := run_preserves (fun _ _ _ hu hstep => inv_step hu hstep) hinv h
  -- the store itself moves no line, and neither does a step after it
  have hlater : Inv t ∧ (¬ t.crashed = true → Stopping t ∧ t.due = s.due ∧
      ∀ i ∈ s.due, (t.InTime i ↔ s.InTime i)) := by
    refine run_preserves (P := fun v => Inv v ∧ (¬ v.crashed = true → Stopping v ∧ v.due = s.due ∧
      ∀ i ∈ s.due, (v.InTime i ↔ s.InTime i))) ?_ ⟨inv_step hinv hstore, fun _ => ?_⟩ hpost
    · rintro v l w ⟨hv, hkeep⟩ hstep
      refine ⟨inv_step hv hstep, fun hw => ?_⟩
      obtain ⟨hstopping, hdue, hiff⟩ := hkeep (live_of_step hstep)
      obtain ⟨hstopping', hdue', hiff'⟩ := inTime_step hv hstopping hstep hw
      refine ⟨hstopping', hdue'.trans hdue, fun i hi => ?_⟩
      exact (hiff' i (hv.due i (hdue.symm ▸ hi))).trans (hiff i hi)
    · have hlive := live_of_step hstore
      rw [step, if_neg hlive] at hstore
      split_ifs at hstore
      cases hstore
      exact ⟨⟨rfl, .inl rfl⟩, rfl, fun _ _ => Iff.rfl⟩
  have hcrash : ¬ t.crashed = true := fun hc => hinvt.crashed hc (hinvt.stopped hstop)
  obtain ⟨-, hdue, hiff⟩ := hlater.2 hcrash
  rw [hdue]
  exact forall₂_congr fun i hi => (passed_iff_inTime hinvt hstop i).trans (hiff i hi)

/-- A line appended while the back end waits is written by the time `stop()` returns. -/
theorem stop_keeps_lines_waiting :
    ∃ s t : AsyncLogging,
      run step new [.startStore, .startThread, .threadFunc, .threadFunc, .threadFunc,
        .append 1 [97], .appendReturn 1, .stopCall] = some s ∧
      run step s [.stopStore, .threadFunc, .threadFunc, .threadFunc, .threadFunc, .threadFunc,
        .stopJoin] = some t ∧
      t.due = [0] ∧ ∀ i ∈ t.due, t.Passed i := by
  let waiting : AsyncLogging :=
    { running := true, currentBuffer := some (FixedBuffer.new.append [97])
      newBuffer1 := some FixedBuffer.new, newBuffer2 := some FixedBuffer.new
      phase := .waiting, main := .stopping, lines := [[97]], returned := [0], due := [0]
      calls := Function.update (Function.update (fun _ => none) 1 (some 0)) 1 none }
  let stopped : AsyncLogging :=
    { waiting with
      running := false, currentBuffer := some FixedBuffer.new, phase := .exited, main := .stopped
      written := [97], swapped := 1 }
  have hpre : run step new [.startStore, .startThread, .threadFunc, .threadFunc, .threadFunc,
    .append 1 [97], .appendReturn 1, .stopCall] = some waiting := rfl
  have hpost : run step waiting [.stopStore, .threadFunc, .threadFunc, .threadFunc, .threadFunc,
    .threadFunc, .stopJoin] = some stopped := rfl
  refine ⟨waiting, stopped, hpre, hpost, rfl, ?_⟩
  refine (stop_keeps_lines_iff hpre hpost rfl).2 fun i hi => ?_
  rw [List.mem_singleton.1 hi]
  exact ⟨[97], rfl, by decide, .inl (.inr (.inl rfl))⟩

/-- A line appended while the back end writes is lost: the loop ends at its next test of
`running_`. -/
theorem stop_loses_line :
    ∃ s t : AsyncLogging,
      run step new [.startStore, .startThread, .threadFunc, .threadFunc, .threadFunc, .threadFunc,
        .append 1 [97], .appendReturn 1, .stopCall] = some s ∧
      run step s [.stopStore, .threadFunc, .threadFunc, .threadFunc, .threadFunc, .stopJoin] =
        some t ∧
      t.main = .stopped ∧ t.due = [0] ∧ ¬ t.Passed 0 ∧ t.written = [] := by
  let writing : AsyncLogging :=
    { running := true, currentBuffer := some (FixedBuffer.new.append [97])
      newBuffer1 := none, newBuffer2 := some FixedBuffer.new
      buffersToWrite := [some FixedBuffer.new]
      phase := .write 0, main := .stopping, lines := [[97]], returned := [0], due := [0]
      calls := Function.update (Function.update (fun _ => none) 1 (some 0)) 1 none }
  let stopped : AsyncLogging :=
    { writing with
      running := false, newBuffer1 := some FixedBuffer.new, buffersToWrite := []
      phase := .exited, main := .stopped }
  refine ⟨writing, stopped, rfl, rfl, rfl, rfl, ?_, rfl⟩
  rintro ⟨logline, hline, -, hpassed⟩
  cases hline
  cases hpassed

end AsyncLogging

end TinyNetwork
