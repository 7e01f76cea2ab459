import TinyNetwork.Log.StopLoss

/-!
# Nothing is lost between the front end and the back end

`stream_conserved`: what was written, what the current iteration has still to write, `buffers_` and
`currentBuffer_` are together all the appended lines, in the order in which `append` held the
mutex; and the spare buffers are empty.  This is the invariant of `StopLoss` in every state of
every run, a failed assertion included, which changes no buffer.
-/

namespace TinyNetwork

open Lts

namespace AsyncLogging

/-- A failed assertion of the back end leaves the buffers as they are. -/
theorem threadFunc_crashed {s t : AsyncLogging} (h : s.threadFunc = some t)
    (hs : ¬ s.crashed = true) (ht : t.crashed = true) : t = { s with crashed := true } := by
  cases threadStep_of_threadFunc h with
  | notRunning | notSpare | nullPointer | noBuffer => rfl
  | _ => exact absurd ht hs

/-- Only an assertion of the back end can fail. -/
theorem threadFunc_of_crashed {s t : AsyncLogging} {l : Label} (hbuf : BufferInv s)
    (h : step s l = some t) (ht : t.crashed = true) : s.threadFunc = some t := by
  have hlive := live_of_step h
  cases l with
  | threadFunc => rwa [step, if_neg hlive] at h
  | append tid logline =>
    obtain ⟨current, next, buffers, happend, -, -⟩ := append_spec hbuf logline
    rw [step, if_neg hlive, happend] at h
    simp only at h
    split at h <;> cases h
    exact absurd ht hlive
  | _ =>
    rw [step, if_neg hlive] at h
    split at h <;> cases h
    exact absurd ht hlive

/-- The buffers are in order in every state. -/
theorem bufferInv_run {ls : List Label} {s : AsyncLogging} (h : run step new ls = some s) :
    BufferInv s := by
  have hboth : Inv s ∧ BufferInv s := by
    refine run_preserves (P := fun s => Inv s ∧ BufferInv s) ?_ ⟨inv_new, bufferInv_new⟩ h
    rintro s l t ⟨hinv, hbuf⟩ hstep
    have hinv' := inv_step hinv hstep
    refine ⟨hinv', ?_⟩
    cases hcrash : t.crashed with
    | false => exact hinv'.buffers hcrash
    | true =>
      have hthread := threadFunc_of_crashed hbuf hstep hcrash
      rw [threadFunc_crashed hthread (live_of_step hstep) hcrash]
      exact { hbuf with }
  exact hboth.2

/-- Lines that fit into a buffer are stored in full. -/
theorem stream_eq_flatten {lines : List Bytes} (h : ∀ l ∈ lines, l.length < kLargeBuffer) :
    stream lines = lines.flatten := by
  induction lines with
  | nil => rfl
  | cons l lines ih =>
    have hl : stored l = l := stored_eq_iff.2 (h l List.mem_cons_self)
    rw [stream_cons, List.flatten_cons, hl, ih fun m hm => h m (List.mem_cons_of_mem _ hm)]

/-- **Nothing is lost, duplicated or reordered while the logging runs.** -/
theorem stream_conserved {ls : List Label} {s : AsyncLogging} (h : run step new ls = some s)
    (hshort : ∀ l ∈ s.lines, l.length < kLargeBuffer) :
    s.written ++ s.toWrite ++ dataOf s.buffers ++ BufferPtr.data s.currentBuffer =
        s.lines.flatten ∧
      BufferPtr.data s.nextBuffer = [] ∧ BufferPtr.data s.newBuffer1 = [] ∧
      BufferPtr.data s.newBuffer2 = [] := by
  have hbuf := bufferInv_run h
  refine ⟨?_, hbuf.nextBuffer, hbuf.newBuffer1, hbuf.newBuffer2⟩
  calc s.written ++ s.toWrite ++ dataOf s.buffers ++ BufferPtr.data s.currentBuffer
      = s.written ++ s.toWrite ++ (dataOf s.buffers ++ BufferPtr.data s.currentBuffer) := by
        rw [List.append_assoc]
    _ = stream (s.lines.take s.swapped) ++ stream (s.lines.drop s.swapped) := by
        rw [hbuf.back, hbuf.front]
    _ = stream s.lines := by rw [← stream_append, List.take_append_drop]
    _ = s.lines.flatten := stream_eq_flatten hshort

/-- Two threads append while the back end writes. -/
theorem stream_conserved_two :
    ∃ s : AsyncLogging,
      run step new [.startStore, .startThread, .threadFunc, .append 1 [97], .appendReturn 1,
        .threadFunc, .threadFunc, .threadFunc, .append 2 [98], .threadFunc, .append 1 [99]] =
          some s ∧
      s.written = [97] ∧
      s.written ++ s.toWrite ++ dataOf s.buffers ++ BufferPtr.data s.currentBuffer =
        [97, 98, 99] := by
  let running : AsyncLogging :=
    { running := true, currentBuffer := some ((FixedBuffer.new.append [98]).append [99])
      newBuffer1 := none, newBuffer2 := some FixedBuffer.new
      buffersToWrite := [some (FixedBuffer.new.append [97])]
      phase := .write 1, main := .started, written := [97], swapped := 1
      lines := [[97], [98], [99]], returned := [0]
      calls := Function.update (Function.update (Function.update (Function.update (fun _ => none)
        1 (some 0)) 1 none) 2 (some 1)) 1 (some 2) }
  have hrun : run step new [.startStore, .startThread, .threadFunc, .append 1 [97],
      .appendReturn 1, .threadFunc, .threadFunc, .threadFunc, .append 2 [98], .threadFunc,
      .append 1 [99]] = some running := rfl
  refine ⟨running, hrun, rfl, (stream_conserved hrun ?_).1⟩
  simp [running, kLargeBuffer]

end AsyncLogging

end TinyNetwork
