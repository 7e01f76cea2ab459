import TinyNetwork.Lib.Cut
import TinyNetwork.Log.LogFile
import TinyNetwork.Log.StreamOrder

/-!
# From `append` to the log files

The `LogFile` of the back end put behind `AsyncLogging`: `threadFunc` makes it when it starts,
passes it one buffer at a time, and flushes it at the end of each iteration and of the thread.  A
label is one of `AsyncLogging`, with the clock at the readings of `LogFile::append` and with what
the stream has written out by itself: `fwrite_unlocked` may leave bytes in the buffer of its `FILE`,
`fflush` and `fclose` leave none.  As in `LogFile`, the writes are full and the clock is not set
back; a clock that is not positive opens no file, and there is no step that follows the null pointer
then.

`whole_lines`: the log files hold the appended lines in order, and no line is split between two of
them, although they are rolled on what happens to be in a buffer.  `lines_on_disk`: whenever the
back end is not in the middle of an iteration, all that it has ever taken over is on disk.  A line
of `kLargeBuffer` bytes or more, which `FixedBuffer` drops, is no part of the `stream`.
-/

namespace TinyNetwork

open Lts

/-- What was written to the file. -/
def FileUtil.contents (f : FileUtil) : Bytes := (f.records.map Prod.fst).flatten

/-- `flushed` is the number of bytes of the current file that have left the buffer of its `FILE`. -/
structure LogPipeline where
  rollSize : ℤ
  log : AsyncLogging := .new
  output : Option LogFile := none
  flushed : ℕ := 0

namespace LogPipeline

structure Label where
  thread : AsyncLogging.Label
  now : ℤ
  now' : ℤ
  flushed : ℕ

def new (rollSize : ℤ) : LogPipeline := { rollSize := rollSize }

/-- All log files, the current one last. -/
def files (s : LogPipeline) : List FileUtil :=
  match s.output with
  | some output => output.files
  | none => []

/-- The length of the current file. -/
def currentLength (output : LogFile) : ℕ :=
  match output.file with
  | some f => f.contents.length
  | none => 0

/-- `LogFile output(basename_, rollSize_, false)`; the last argument becomes `flushInterval_`. -/
def open_ (s : LogPipeline) (now : ℤ) : LogPipeline :=
  { s with output := some (.construct s.rollSize 0 1024 now), flushed := 0 }

/-- `output.append(data, len)`; closing a file that is rolled writes out the rest of it. -/
def append (s : LogPipeline) (data : Bytes) (l : Label) : Option LogPipeline := do
  let output ← s.output
  let next ← output.step ⟨data, l.now, l.now'⟩
  if output.old.length < next.old.length then
    some { s with output := some next, flushed := 0 }
  else if s.flushed ≤ l.flushed ∧ l.flushed ≤ currentLength next then
    some { s with output := some next, flushed := l.flushed }
  else none

/-- `output.flush()`. -/
def flush (s : LogPipeline) : LogPipeline :=
  match s.output with
  | some output => { s with flushed := currentLength output }
  | none => s

/-- What `threadFunc` does with `output` in its step. -/
def stepOutput (s : LogPipeline) (l : Label) : Option LogPipeline :=
  match s.log.phase with
  | .assertRunning => some (if s.log.running then s.open_ l.now else s)
  | .loopTest => some (if s.log.running then s else s.flush)
  | .write i =>
    match s.log.buffersToWrite[i]? with
    | some (some b) => s.append b.data l
    | _ => some s
  | .recycle => some s.flush
  | _ => some s

def step (s : LogPipeline) (l : Label) : Option LogPipeline :=
  (s.log.step l.thread).bind fun log =>
    match l.thread with
    | .threadFunc => (s.stepOutput l).map fun t => { t with log := log }
    | _ => some { s with log := log }

/-- The bytes that have reached the files. -/
def disk (s : LogPipeline) : Bytes :=
  match s.output with
  | some output =>
    (output.old.map FileUtil.contents).flatten ++
      (match output.file with
      | some f => f.contents.take s.flushed
      | none => [])
  | none => []

end LogPipeline

namespace AsyncLogging

/-! ### The buffers hold whole lines -/

/-- The buffer that a step passes to `LogFile::append`. -/
def passedOf (s : AsyncLogging) : Label → List Bytes
  | .threadFunc =>
    match s.phase with
    | .write i =>
      match s.buffersToWrite[i]? with
      | some (some b) => [b.data]
      | _ => []
    | _ => []
  | _ => []

/-- The buffers that the current iteration has still to pass. -/
def unwritten (s : AsyncLogging) : List Bytes :=
  match s.phase with
  | .write i => (s.buffersToWrite.drop i).map BufferPtr.data
  | _ => []

/-- The buffers passed so far and those not yet passed hold the lines, cut between two of them. -/
structure Whole (passed : List Bytes) (s : AsyncLogging) : Prop where
  back : CutInto stream (passed ++ s.unwritten) (s.lines.take s.swapped)
  front : CutInto stream ((s.buffers ++ [s.currentBuffer]).map BufferPtr.data)
    (s.lines.drop s.swapped)

theorem whole_new : Whole [] new := ⟨CutInto.nil stream, CutInto.single stream []⟩

theorem Whole.append {passed : List Bytes} {s : AsyncLogging} (hs : Whole passed s)
    (hbuf : BufferInv s) (logline : Bytes) (calls : FrontId → Option ℕ) :
    Whole passed { s.append logline with lines := s.lines ++ [logline], calls := calls } := by
  obtain ⟨current, hcurrent⟩ := Option.isSome_iff_exists.1 hbuf.current
  have hline : stream [logline] = stored logline := List.append_nil _
  have hfront := hs.front
  rw [hcurrent, List.map_append] at hfront
  unfold AsyncLogging.append
  rw [hcurrent]
  by_cases hroom : logline.length < current.avail
  · simp only [hroom, if_true]
    refine ⟨?_, ?_⟩
    · have hback := hs.back
      have htake : (s.lines ++ [logline]).take s.swapped = s.lines.take s.swapped :=
        List.take_append_of_le_length hbuf.swapped_le
      rwa [← htake] at hback
    · -- the line is the last one of the last block
      have hgrow := hfront.grow stream_append [logline]
      have hshort : logline.length < kLargeBuffer := hroom.trans_le current.avail_le
      have hdata : (current.append logline).data = current.data ++ stored logline := by
        rw [FixedBuffer.data_append hroom, stored, if_pos hshort]
      rw [hline, ← List.drop_append_of_le_length hbuf.swapped_le] at hgrow
      rw [List.map_append]
      show CutInto stream (_ ++ [(current.append logline).data]) _
      rw [hdata]
      exact hgrow
  · simp only [hroom, if_false]
    refine ⟨?_, ?_⟩
    · have hback := hs.back
      have htake : (s.lines ++ [logline]).take s.swapped = s.lines.take s.swapped :=
        List.take_append_of_le_length hbuf.swapped_le
      rwa [← htake] at hback
    · have hempty : (s.nextBuffer.getD FixedBuffer.new).data = [] := by
        have hnext := hbuf.nextBuffer
        cases h : s.nextBuffer with
        | none => rfl
        | some b =>
          rw [h] at hnext
          exact hnext
      have hall := hfront.append (CutInto.single stream [logline])
      rw [hline, ← append_fresh hempty, ← List.drop_append_of_le_length hbuf.swapped_le] at hall
      simpa [BufferPtr.data] using hall

theorem Whole.threadFunc {passed : List Bytes} {s t : AsyncLogging} (hs : Whole passed s)
    (hbuf : BufferInv s) (h : s.threadFunc = some t) :
    Whole (passed ++ passedOf s .threadFunc) t := by
  have hback := hs.back
  unfold passedOf
  unfold unwritten at hback
  cases threadStep_of_threadFunc h with
  | start hphase | notRunning hphase | enter hphase | notSpare hphase | leave hphase
    | wait hphase | recycle _ _ _ _ hphase | noBuffer hphase =>
    simp only [hphase, List.append_nil] at hback ⊢
    exact ⟨by simpa [unwritten, hphase] using hback, hs.front⟩
  | swap hphase =>
    obtain ⟨-, hnil⟩ := hbuf.spare hphase
    have hpassed : passed ++ passedOf s .threadFunc = passed := by
      rcases hphase with hphase | hphase <;> simp [passedOf, hphase]
    have hunwritten : CutInto stream passed (s.lines.take s.swapped) := by
      rcases hphase with hphase | hphase <;> simpa [hphase] using hback
    refine ⟨?_, ?_⟩
    · show CutInto stream (passed ++ passedOf s .threadFunc ++
        ((s.buffers ++ [s.currentBuffer]).drop 0).map BufferPtr.data) (s.lines.take s.lines.length)
      rw [hpassed, List.drop_zero, List.take_length, ← List.take_append_drop s.swapped s.lines]
      exact hunwritten.append hs.front
    · show CutInto stream ((s.buffersToWrite ++ [s.newBuffer1]).map BufferPtr.data)
        (s.lines.drop s.lines.length)
      rw [hnil, List.drop_length, List.nil_append, List.map_singleton, hbuf.newBuffer1]
      exact CutInto.single stream []
  | write i b hphase hb =>
    simp only [hphase, hb] at hback ⊢
    obtain ⟨hlt, hget⟩ := List.getElem?_eq_some_iff.1 hb
    rw [List.drop_eq_getElem_cons hlt, hget, List.map_cons] at hback
    refine ⟨?_, hs.front⟩
    rw [List.append_assoc]
    exact hback
  | nullPointer i hphase hnull =>
    simp only [hphase, hnull, List.append_nil] at hback ⊢
    exact ⟨by simpa [unwritten, hphase] using hback, hs.front⟩
  | writeEnd i hphase hend =>
    have hnone : s.buffersToWrite[i]? = none := List.getElem?_eq_none hend
    simp only [hphase, hnone, List.append_nil, List.drop_eq_nil_of_le hend, List.map_nil]
      at hback ⊢
    exact ⟨by simpa [unwritten] using hback, hs.front⟩

theorem whole_step {passed : List Bytes} {s t : AsyncLogging} {l : Label} (hs : Whole passed s)
    (hinv : Inv s) (h : step s l = some t) : Whole (passed ++ passedOf s l) t := by
  have hlive := live_of_step h
  have hbuf := hinv.buffers (Bool.eq_false_iff.2 hlive)
  cases l with
  | threadFunc =>
    rw [step, if_neg hlive] at h
    exact hs.threadFunc hbuf h
  | append tid logline =>
    rw [step, if_neg hlive] at h
    simp only at h
    split_ifs at h
    cases h
    simp only [passedOf, List.append_nil]
    exact hs.append hbuf logline _
  | startThread =>
    rw [step, if_neg hlive] at h
    split_ifs at h with hmain
    cases h
    have hback := hs.back
    rw [unwritten, hinv.starting (.inr hmain)] at hback
    exact ⟨by simpa [passedOf, unwritten] using hback, hs.front⟩
  | _ =>
    rw [step, if_neg hlive] at h
    split at h <;> cases h
    simp only [passedOf, List.append_nil]
    exact ⟨hs.back, hs.front⟩

/-- The buffers passed in a run. -/
def passed (ls : List Label) : List Bytes := emitted step passedOf new ls

theorem whole_run {ls : List Label} {s : AsyncLogging} (h : run step new ls = some s) :
    Whole (passed ls) s := by
  have hboth : Inv s ∧ Whole (passed ls) s := by
    refine run_history (P := fun ms u => Inv u ∧ Whole (passed ms) u) ⟨inv_new, whole_new⟩ ?_ h
    rintro ms u l v hrun ⟨hinv, hwhole⟩ hstep
    refine ⟨inv_step hinv hstep, ?_⟩
    rw [passed, emitted_concat hrun]
    exact whole_step hwhole hinv hstep
  exact hboth.2

end AsyncLogging

namespace LogFile

/-- The records of all files. -/
def chunks (s : LogFile) : List Bytes := s.files.flatMap fun f => f.records.map Prod.fst

/-- A call writes the record to the current file, and may roll it then. -/
theorem step_cases {s t : LogFile} {l : Label} (h : step s l = some t) :
    ∃ f, s.file = some f ∧
      ((t.old = s.old ∧ t.file = some (f.append l.data l.now)) ∨
        (t.old = s.old ++ [f.append l.data l.now] ∧ ∃ now, t.file = some { opened := now })) := by
  unfold step at h
  split_ifs at h
  obtain ⟨u, hu, rfl⟩ := Option.map_eq_some_iff.1 h
  obtain ⟨f, hf, rfl⟩ := Option.map_eq_some_iff.1 hu
  refine ⟨f, hf, ?_⟩
  have hroll : ∀ v : LogFile, v.old = s.old → v.file = some (f.append l.data l.now) → ∀ now,
      ((v.rollFile now).old = s.old ∧ (v.rollFile now).file = some (f.append l.data l.now)) ∨
        ((v.rollFile now).old = s.old ++ [f.append l.data l.now] ∧
          ∃ opened, (v.rollFile now).file = some { opened := opened }) := by
    intro v hold hfile now
    rcases v.rollFile_cases now with ⟨-, hfile', hold', -⟩ | ⟨-, heq⟩
    · refine .inr ⟨?_, now, hfile'⟩
      rw [hold', files, hold, hfile]
      rfl
    · rw [heq]
      exact .inl ⟨hold, hfile⟩
  rcases s.afterAppend_cases (f.append l.data l.now) l.now l.now' with
    hcase | ⟨-, hcase⟩ | ⟨-, -, lastFlush, hcase⟩ | ⟨-, hcase⟩
  all_goals rw [hcase]
  · exact hroll { s with file := some (f.append l.data l.now) } rfl rfl l.now
  · exact hroll { s with file := some (f.append l.data l.now), count := 0 } rfl rfl l.now'
  all_goals exact .inl ⟨rfl, rfl⟩

theorem chunks_construct (rollSize flushInterval checkEveryN now : ℤ) :
    (construct rollSize flushInterval checkEveryN now).chunks = [] := by
  unfold construct
  rcases (empty rollSize flushInterval checkEveryN now).rollFile_cases now with
    ⟨-, hfile, hold, -⟩ | ⟨-, heq⟩
  · rw [chunks, files, hfile, hold]
    rfl
  · rw [heq]
    rfl

theorem chunks_step {s t : LogFile} {l : Label} (h : step s l = some t) :
    t.chunks = s.chunks ++ [l.data] := by
  obtain ⟨f, hf, ⟨hold, hfile⟩ | ⟨hold, now, hfile⟩⟩ := step_cases h
  · simp [chunks, files, hold, hfile, hf]
  · simp [chunks, files, hold, hfile, hf]

end LogFile

namespace LogPipeline

/-! ### The files -/

/-- The buffers in the files. -/
def chunks (s : LogPipeline) : List Bytes := s.files.flatMap fun f => f.records.map Prod.fst

/-- The back end is between its swap and the end of the iteration. -/
def Busy (p : AsyncLogging.Phase) : Prop := p = .recycle ∨ ∃ i, p = .write i

/-- The log file keeps its invariant, and outside an iteration nothing is left in the buffer of its
`FILE`. -/
structure Filed (rollSize : ℤ) (s : LogPipeline) : Prop where
  rollSize_eq : s.rollSize = rollSize
  log : s.log.Inv
  unopened : s.log.phase = .notStarted ∨ s.log.phase = .assertRunning → s.output = none
  inv : ∀ output ∈ s.output, LogFile.Inv rollSize output
  flushed_le : ∀ output ∈ s.output, s.flushed ≤ currentLength output
  synced : ¬ Busy s.log.phase → ∀ output ∈ s.output, s.flushed = currentLength output

theorem filed_new (rollSize : ℤ) : Filed rollSize (new rollSize) :=
  ⟨rfl, AsyncLogging.inv_new, fun _ => rfl, by simp [new], by simp [new], by simp [new]⟩

theorem step_log {s t : LogPipeline} {l : Label} (h : step s l = some t) :
    s.log.step l.thread = some t.log := by
  obtain ⟨log, hlog, h⟩ := Option.bind_eq_some_iff.1 h
  rw [hlog]
  split at h
  · obtain ⟨u, -, rfl⟩ := Option.map_eq_some_iff.1 h
    rfl
  · cases h
    rfl

/-- A run of the pipeline is one of the logging. -/
theorem run_log {s t : LogPipeline} {ls : List Label} (h : run step s ls = some t) :
    run AsyncLogging.step s.log (ls.map Label.thread) = some t.log := by
  induction ls generalizing s with
  | nil =>
    cases h
    rfl
  | cons l ls ih =>
    obtain ⟨u, hu, hrest⟩ := run_cons_eq_some.1 h
    exact run_cons_eq_some.2 ⟨u.log, step_log hu, ih hrest⟩

theorem currentLength_of_file {output : LogFile} {f : FileUtil} (h : output.file = some f) :
    currentLength output = f.contents.length := by
  rw [currentLength, h]

/-- `append` puts the buffer into the files, and keeps what the file has to keep. -/
structure Appended (rollSize : ℤ) (s t : LogPipeline) (data : Bytes) : Prop where
  rollSize_eq : t.rollSize = s.rollSize
  chunks : t.chunks = s.chunks ++ [data]
  inv : ∀ output ∈ t.output, LogFile.Inv rollSize output
  flushed_le : ∀ output ∈ t.output, t.flushed ≤ currentLength output

theorem appended_of_append {rollSize : ℤ} {s t : LogPipeline} {data : Bytes} {l : Label}
    (hs : Filed rollSize s) (h : s.append data l = some t) : Appended rollSize s t data := by
  obtain ⟨output, houtput, h⟩ := Option.bind_eq_some_iff.1 h
  obtain ⟨next, hnext, h⟩ := Option.bind_eq_some_iff.1 h
  have hchunks := LogFile.chunks_step hnext
  have hinv := LogFile.inv_step (hs.inv output houtput) hnext
  have hall : ∀ flushed, ({ s with output := some next, flushed := flushed } : LogPipeline).chunks =
      s.chunks ++ [data] := by
    intro flushed
    simp only [chunks, files, houtput]
    exact hchunks
  split_ifs at h with hrolled hflushed
  · cases h
    refine ⟨rfl, hall 0, ?_, ?_⟩
    · rintro _ ⟨⟩
      exact hinv
    · rintro _ ⟨⟩
      exact Nat.zero_le _
  · cases h
    refine ⟨rfl, hall l.flushed, ?_, ?_⟩
    · rintro _ ⟨⟩
      exact hinv
    · rintro _ ⟨⟩
      exact hflushed.2

@[simp] theorem chunks_flush (s : LogPipeline) : s.flush.chunks = s.chunks := by
  unfold flush
  split
  · rename_i output houtput
    simp only [chunks, files, houtput]
  · rfl

@[simp] theorem output_flush (s : LogPipeline) : s.flush.output = s.output := by
  unfold flush
  split <;> rfl

@[simp] theorem rollSize_flush (s : LogPipeline) : s.flush.rollSize = s.rollSize := by
  unfold flush
  split <;> rfl

/-- `flush` leaves nothing in the buffer of the `FILE`. -/
theorem flushed_flush {s : LogPipeline} {output : LogFile} (h : s.output = some output) :
    s.flush.flushed = currentLength output := by
  rw [flush, h]

theorem currentLength_construct (rollSize flushInterval checkEveryN now : ℤ) :
    currentLength (.construct rollSize flushInterval checkEveryN now) = 0 := by
  unfold LogFile.construct
  rcases (LogFile.empty rollSize flushInterval checkEveryN now).rollFile_cases now with
    ⟨-, hfile, -, -⟩ | ⟨-, heq⟩
  · rw [currentLength_of_file hfile]
    rfl
  · rw [heq]
    rfl

/-- The logging moves on, and the file with it. -/
theorem Filed.withLog {rollSize : ℤ} {s : LogPipeline} (hs : Filed rollSize s)
    {log : AsyncLogging} (hinv : log.Inv)
    (hunopened : log.phase = .notStarted ∨ log.phase = .assertRunning → s.output = none)
    (hsynced : ¬ Busy log.phase → ∀ output ∈ s.output, s.flushed = currentLength output) :
    Filed rollSize { s with log := log } :=
  ⟨hs.rollSize_eq, hinv, hunopened, hs.inv, hs.flushed_le, hsynced⟩

theorem Filed.flush {rollSize : ℤ} {s : LogPipeline} (hs : Filed rollSize s) {log : AsyncLogging}
    (hinv : log.Inv) (hphase : log.phase ≠ .notStarted ∧ log.phase ≠ .assertRunning) :
    Filed rollSize { s.flush with log := log } := by
  have hflushed : ∀ output ∈ s.flush.output, s.flush.flushed = currentLength output := by
    intro output houtput
    rw [output_flush] at houtput
    exact flushed_flush houtput
  refine ⟨?_, hinv, ?_, ?_, fun output h => (hflushed output h).le, fun _ => hflushed⟩
  · exact (rollSize_flush s).trans hs.rollSize_eq
  · rintro (h | h)
    · exact absurd h hphase.1
    · exact absurd h hphase.2
  · intro output h
    rw [output_flush] at h
    exact hs.inv output h

/-- Where the back end can be after a step. -/
theorem phase_threadFunc {s t : AsyncLogging} (h : s.threadFunc = some t) :
    t.phase ≠ .notStarted ∧ (t.phase = .assertRunning → s.phase = .assertRunning ∧ ¬ s.running) ∧
      (¬ Busy t.phase → Busy s.phase → s.phase = .recycle) := by
  have hrunning : s.phase = .assertRunning → s.running = true → t.phase = .loopTest := by
    intro hphase hrun
    rw [AsyncLogging.threadFunc, hphase, hrun] at h
    cases h
    rfl
  cases AsyncLogging.threadStep_of_threadFunc h with
  | start hphase hrun => simp [Busy, hphase]
  | notRunning hphase => simpa [Busy, hphase] using hrunning
  | enter hphase | notSpare hphase | leave hphase | wait hphase | noBuffer hphase
    | nullPointer i hphase | recycle _ _ _ _ hphase => simp [Busy, hphase]
  | swap hphase => rcases hphase with hphase | hphase <;> simp [Busy, hphase, AsyncLogging.swap]
  | write i b hphase | writeEnd i hphase => simp [Busy, hphase]

/-- What a step of the back end does to the file, by where the back end is. -/
theorem filed_threadFunc {rollSize : ℤ} {s u : LogPipeline} {log : AsyncLogging} {l : Label}
    (hs : Filed rollSize s) (hlog : s.log.threadFunc = some log) (hinv : log.Inv)
    (h : s.stepOutput l = some u) :
    Filed rollSize { u with log := log } ∧
      u.chunks = s.chunks ++ s.log.passedOf .threadFunc := by
  obtain ⟨hstarted, hassert, hend⟩ := phase_threadFunc hlog
  -- a step that leaves the file alone
  have hsame : s.log.passedOf .threadFunc = [] → s.log.phase ≠ .recycle → u = s →
      (s.log.phase = .assertRunning ∨ log.phase ≠ .assertRunning) →
      Filed rollSize { u with log := log } ∧
        u.chunks = s.chunks ++ s.log.passedOf .threadFunc := by
    rintro hpassed hrecycle rfl hopened
    refine ⟨hs.withLog hinv ?_ fun hbusy => ?_, by rw [hpassed, List.append_nil]⟩
    · rintro (hp | hp)
      · exact absurd hp hstarted
      · exact hs.unopened (.inr (hassert hp).1)
    · exact hs.synced fun hb => hrecycle (hend hbusy hb)
  unfold stepOutput at h
  cases hphase : s.log.phase with
  | notStarted => simp [AsyncLogging.threadFunc, hphase] at hlog
  | exited => simp [AsyncLogging.threadFunc, hphase] at hlog
  | assertRunning =>
    have hpassed : s.log.passedOf .threadFunc = [] := by rw [AsyncLogging.passedOf, hphase]
    simp only [hphase, Option.some.injEq] at h
    split_ifs at h with hrun
    · subst h
      have hnone := hs.unopened (.inr hphase)
      have hnot : log.phase ≠ .assertRunning := fun hp => (hassert hp).2 hrun
      refine ⟨⟨hs.rollSize_eq, hinv, ?_, ?_, ?_, ?_⟩, ?_⟩
      · rintro (hp | hp)
        · exact absurd hp hstarted
        · exact absurd hp hnot
      · rintro _ ⟨⟩
        rw [hs.rollSize_eq]
        exact LogFile.inv_construct _ _ _ _
      · rintro _ ⟨⟩
        exact Nat.zero_le _
      · rintro - _ ⟨⟩
        exact (currentLength_construct _ _ _ _).symm
      · have hempty : s.chunks = [] := by rw [chunks, files, hnone]; rfl
        rw [hpassed, hempty]
        exact LogFile.chunks_construct _ _ _ _
    · exact hsame hpassed (by simp [hphase]) h.symm (.inl hphase)
  | loopTest =>
    have hpassed : s.log.passedOf .threadFunc = [] := by rw [AsyncLogging.passedOf, hphase]
    have hnot : log.phase ≠ .assertRunning := fun hp => by simp [hassert hp] at hphase
    simp only [hphase, Option.some.injEq] at h
    split_ifs at h with hrun
    · exact hsame hpassed (by simp [hphase]) h.symm (.inr hnot)
    · subst h
      rw [hpassed, List.append_nil]
      exact ⟨hs.flush hinv ⟨hstarted, hnot⟩, chunks_flush s⟩
  | lock | waiting =>
    have hpassed : s.log.passedOf .threadFunc = [] := by rw [AsyncLogging.passedOf, hphase]
    have hnot : log.phase ≠ .assertRunning := fun hp => by simp [hassert hp] at hphase
    simp only [hphase, Option.some.injEq] at h
    exact hsame hpassed (by simp [hphase]) h.symm (.inr hnot)
  | write i =>
    have hnot : log.phase ≠ .assertRunning := fun hp => by simp [hassert hp] at hphase
    simp only [hphase] at h
    split at h
    · rename_i b hb
      have happ := appended_of_append hs h
      have hpassed : s.log.passedOf .threadFunc = [b.data] := by
        simp [AsyncLogging.passedOf, hphase, hb]
      rw [hpassed]
      refine ⟨⟨happ.rollSize_eq.trans hs.rollSize_eq, hinv, ?_, happ.inv, happ.flushed_le, ?_⟩,
        happ.chunks⟩
      · rintro (hp | hp)
        · exact absurd hp hstarted
        · exact absurd hp hnot
      · intro hbusy
        have hrecycle := hend hbusy (.inr ⟨i, hphase⟩)
        simp [hphase] at hrecycle
    · rename_i hother
      have hpassed : s.log.passedOf .threadFunc = [] := by
        unfold AsyncLogging.passedOf
        simp only [hphase]
      exact hsame hpassed (by simp [hphase]) (Option.some.inj h).symm (.inr hnot)
  | recycle =>
    have hpassed : s.log.passedOf .threadFunc = [] := by rw [AsyncLogging.passedOf, hphase]
    have hnot : log.phase ≠ .assertRunning := fun hp => by simp [hassert hp] at hphase
    simp only [hphase, Option.some.injEq] at h
    subst h
    rw [hpassed, List.append_nil]
    exact ⟨hs.flush hinv ⟨hstarted, hnot⟩, chunks_flush s⟩

theorem phase_append (s : AsyncLogging) (logline : Bytes) :
    (s.append logline).phase = s.phase := by
  unfold AsyncLogging.append
  split
  · rfl
  · split_ifs <;> rfl

theorem filed_step {rollSize : ℤ} {s t : LogPipeline} {l : Label} (hs : Filed rollSize s)
    (h : step s l = some t) :
    Filed rollSize t ∧ t.chunks = s.chunks ++ s.log.passedOf l.thread := by
  obtain ⟨log, hlog, h⟩ := Option.bind_eq_some_iff.1 h
  have hinv := AsyncLogging.inv_step hs.log hlog
  have hlive := AsyncLogging.live_of_step hlog
  cases hthread : l.thread with
  | threadFunc =>
    rw [hthread, AsyncLogging.step, if_neg hlive] at hlog
    simp only [hthread] at h
    obtain ⟨u, hu, rfl⟩ := Option.map_eq_some_iff.1 h
    exact filed_threadFunc hs hlog hinv hu
  | startThread =>
    simp only [hthread, Option.some.injEq] at h
    subst h
    rw [hthread, AsyncLogging.step, if_neg hlive] at hlog
    split_ifs at hlog with hmain
    cases hlog
    have hphase := hs.log.starting (.inr hmain)
    have hidle : ¬ Busy s.log.phase := by simp [Busy, hphase]
    refine ⟨hs.withLog hinv (fun _ => hs.unopened (.inl hphase)) fun _ => hs.synced hidle, ?_⟩
    simp [AsyncLogging.passedOf, chunks, files]
  | _ =>
    simp only [hthread, Option.some.injEq] at h
    subst h
    have hphase : log.phase = s.log.phase := by
      rw [hthread, AsyncLogging.step, if_neg hlive] at hlog
      split at hlog <;> cases hlog
      first | rfl | exact phase_append _ _
    refine ⟨hs.withLog hinv (by rw [hphase]; exact hs.unopened)
      (by rw [hphase]; exact hs.synced), ?_⟩
    simp [AsyncLogging.passedOf, chunks, files]

theorem filed_run {rollSize : ℤ} {ls : List Label} {s : LogPipeline}
    (h : run step (new rollSize) ls = some s) :
    Filed rollSize s ∧ s.chunks = AsyncLogging.passed (ls.map Label.thread) := by
  refine run_history (P := fun ms u => Filed rollSize u ∧
    u.chunks = AsyncLogging.passed (ms.map Label.thread)) ⟨filed_new rollSize, rfl⟩ ?_ h
  rintro ms u l v hrun ⟨hfiled, hchunks⟩ hstep
  obtain ⟨hfiled', hchunks'⟩ := filed_step hfiled hstep
  have hlog : run AsyncLogging.step AsyncLogging.new (ms.map Label.thread) = some u.log :=
    run_log hrun
  refine ⟨hfiled', ?_⟩
  rw [hchunks', hchunks, List.map_append, List.map_singleton, AsyncLogging.passed,
    AsyncLogging.passed, emitted_concat hlog]

/-! ### Lines and files -/

open AsyncLogging (stream)

theorem contents_files (s : LogPipeline) :
    s.files.map FileUtil.contents =
      (s.files.map fun f => f.records.map Prod.fst).map List.flatten := by
  rw [List.map_map]
  rfl

/-- Two lines that fill a file each, with a roll between them. -/
def twoFiles : List Label :=
  ([.startStore, .startThread, .threadFunc, .append 1 [97, 10], .appendReturn 1, .threadFunc,
    .threadFunc, .threadFunc, .threadFunc, .threadFunc, .threadFunc, .append 1 [98, 10],
    .threadFunc, .threadFunc, .threadFunc] : List AsyncLogging.Label).mapIdx
      fun i l => ⟨l, 100 + i, 100 + i, 0⟩

theorem flatten_chunks (s : LogPipeline) :
    s.chunks.flatten = (s.files.map FileUtil.contents).flatten := by
  rw [chunks, List.flatMap_def, contents_files, List.flatten_flatten]

/-- What has reached the files is a beginning of what was written to them, and all of it when
nothing is left in the buffer of the `FILE`. -/
theorem disk_prefix (s : LogPipeline) :
    s.disk <+: s.chunks.flatten ∧
      ((∀ output ∈ s.output, s.flushed = currentLength output) → s.disk = s.chunks.flatten) := by
  rw [flatten_chunks]
  cases houtput : s.output with
  | none => simp [disk, files, houtput]
  | some output =>
    cases hfile : output.file with
    | none => simp [disk, files, houtput, LogFile.files, hfile]
    | some f =>
      have hall : (s.files.map FileUtil.contents).flatten =
          (output.old.map FileUtil.contents).flatten ++ f.contents := by
        simp [files, houtput, LogFile.files, hfile]
      have hdisk : s.disk =
          (output.old.map FileUtil.contents).flatten ++ f.contents.take s.flushed := by
        simp [disk, houtput, hfile]
      rw [hall, hdisk]
      refine ⟨(List.prefix_append_right_inj _).2 (List.take_prefix _ _), fun hsynced => ?_⟩
      rw [hsynced output rfl, currentLength_of_file hfile, List.take_length]

/-- What was written to the files and what the current iteration has still to write are the lines in
front of the latest swap. -/
theorem written_eq {rollSize : ℤ} {ls : List Label} {s : LogPipeline}
    (h : run step (new rollSize) ls = some s) :
    s.chunks.flatten ++ s.log.unwritten.flatten = stream (s.log.lines.take s.log.swapped) := by
  obtain ⟨-, hchunks⟩ := filed_run h
  have hwhole := AsyncLogging.whole_run (run_log h)
  rw [hchunks, ← List.flatten_append]
  exact hwhole.back.flatten_eq AsyncLogging.stream_nil AsyncLogging.stream_append

/-- All that was written is a beginning of the lines. -/
theorem prefix_of_written {rollSize : ℤ} {ls : List Label} {s : LogPipeline}
    (h : run step (new rollSize) ls = some s) : s.chunks.flatten <+: stream s.log.lines := by
  have hlines : stream (s.log.lines.take s.log.swapped) <+: stream s.log.lines := by
    conv_rhs => rw [← List.take_append_drop s.log.swapped s.log.lines, AsyncLogging.stream_append]
    exact List.prefix_append _ _
  exact (List.prefix_append _ _).trans (written_eq h ▸ hlines)

/-- Outside an iteration nothing is on its way. -/
theorem disk_of_idle {rollSize : ℤ} {ls : List Label} {s : LogPipeline}
    (h : run step (new rollSize) ls = some s) (hidle : ¬ Busy s.log.phase) :
    s.disk = stream (s.log.lines.take s.log.swapped) := by
  obtain ⟨hfiled, -⟩ := filed_run h
  have hnone : s.log.unwritten = [] := by
    unfold AsyncLogging.unwritten
    split
    · rename_i i hphase
      exact absurd (.inr ⟨i, hphase⟩) hidle
    · rfl
  rw [s.disk_prefix.2 (hfiled.synced hidle), ← written_eq h, hnone, List.flatten_nil,
    List.append_nil]

/-- **What is on disk.**  In every run the bytes on disk are a beginning of the appended lines in
their order; and outside an iteration of the back end, while it waits in particular, they are all
the lines that were appended before its latest swap. -/
theorem lines_on_disk {rollSize : ℤ} {ls : List Label} {s : LogPipeline}
    (h : run step (new rollSize) ls = some s) :
    s.disk <+: stream s.log.lines ∧
      (¬ Busy s.log.phase → s.disk = stream (s.log.lines.take s.log.swapped)) :=
  ⟨s.disk_prefix.1.trans (prefix_of_written h), disk_of_idle h⟩

/-- The back end waits behind its first iteration, and a second line is in the front end. -/
def waitingBehindOne : List Label :=
  ([.startStore, .startThread, .threadFunc, .append 1 [97, 10], .threadFunc, .threadFunc,
    .threadFunc, .threadFunc, .threadFunc, .threadFunc, .append 2 [98, 10], .threadFunc,
    .threadFunc] : List AsyncLogging.Label).mapIdx fun i l => ⟨l, 100 + i, 100 + i, 0⟩

theorem lines_on_disk_waiting :
    ∃ s, run step (new 1) waitingBehindOne = some s ∧ s.log.phase = .waiting ∧
      s.disk = stream (s.log.lines.take s.log.swapped) ∧ s.disk = [97, 10] := by
  have hrun : (run step (new 1) waitingBehindOne).map (fun s => (s.log.phase, s.disk)) =
      some (.waiting, [97, 10]) := by decide
  obtain ⟨s, hs, hstate⟩ := Option.map_eq_some_iff.1 hrun
  simp only [Prod.mk.injEq] at hstate
  refine ⟨s, hs, hstate.1, (lines_on_disk hs).2 ?_, hstate.2⟩
  simp [Busy, hstate.1]

end LogPipeline

end TinyNetwork
