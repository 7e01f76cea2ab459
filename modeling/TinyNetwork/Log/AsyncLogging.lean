import TinyNetwork.Base.FixedBuffer
import TinyNetwork.Lib.Run
import Mathlib.Logic.Function.Basic

/-!
# `class AsyncLogging` (src/log/AsyncLogging.h, src/log/AsyncLogging.cpp)

The front-end threads that call `append`, the back-end thread that runs `threadFunc`, and the thread
that calls `start()` and `stop()`.  A label is one step of one of them; what is done under `mutex_`
is one step, and so is each load or store of `running_` and each call of `LogFile::append`.

The wait on `cond_` ends by a notification, by its timeout or spuriously, so it may end at any
time and notifications need not be modelled.  `output.flush()` is left out.  A `std::unique_ptr` is
an `Option`; a failed assertion or a null pointer followed ends the program (`crashed`).

`written` is what was passed to `LogFile::append`.  The other fields behind it are history: the
lines in the order in which `append` held the mutex (a line is named by its place there), the lines
whose `append` returned, those that had returned when `stop()` was called (`due`), and the number
of lines appended before the latest swap (`swapped`).
-/

namespace TinyNetwork

open Lts

/-- The name of a front-end thread. -/
abbrev FrontId := ℕ

/-- `std::unique_ptr<FixedBuffer<kLargeBuffer>>`. -/
abbrev BufferPtr := Option (FixedBuffer kLargeBuffer)

/-- The bytes behind a pointer. -/
def BufferPtr.data : BufferPtr → Bytes
  | some b => FixedBuffer.data b
  | none => []

namespace AsyncLogging

/-- Where the back-end thread is: not created, in front of the assertion at the start, at
`while (running_)`, in front of the critical section, in `cond_.wait_for`, writing buffer number
`i`, in front of the refill of the spare buffers, or done. -/
inductive Phase
  | notStarted
  | assertRunning
  | loopTest
  | lock
  | waiting
  | write (i : ℕ)
  | recycle
  | exited
  deriving DecidableEq

/-- Where the thread that starts and stops the logging is. -/
inductive Main
  | fresh
  | starting
  | started
  | stopping
  | joining
  | stopped
  deriving DecidableEq

inductive Label
  | append (t : FrontId) (logline : Bytes)
  | appendReturn (t : FrontId)
  | startStore
  | startThread
  | stopCall
  | stopStore
  | stopJoin
  | threadFunc
  deriving DecidableEq

end AsyncLogging

structure AsyncLogging where
  running : Bool := false
  currentBuffer : BufferPtr := some FixedBuffer.new
  nextBuffer : BufferPtr := some FixedBuffer.new
  buffers : List BufferPtr := []
  newBuffer1 : BufferPtr := none
  newBuffer2 : BufferPtr := none
  buffersToWrite : List BufferPtr := []
  phase : AsyncLogging.Phase := .notStarted
  main : AsyncLogging.Main := .fresh
  crashed : Bool := false
  written : Bytes := []
  lines : List Bytes := []
  calls : FrontId → Option ℕ := fun _ => none
  returned : List ℕ := []
  due : List ℕ := []
  swapped : ℕ := 0

namespace AsyncLogging

/-- The constructor. -/
def new : AsyncLogging := {}

/-- The critical section of `append(logline, len)`. -/
def append (s : AsyncLogging) (logline : Bytes) : AsyncLogging :=
  match s.currentBuffer with
  | none => { s with crashed := true }
  | some current =>
    if logline.length < current.avail then
      { s with currentBuffer := some (current.append logline) }
    else
      -- the spare buffer becomes the current one, or a new buffer if there is none
      { s with
        buffers := s.buffers ++ [some current]
        nextBuffer := none
        currentBuffer := some ((s.nextBuffer.getD FixedBuffer.new).append logline) }

/-- `newBuffer && newBuffer->length() == 0`. -/
def spare : BufferPtr → Bool
  | some b => b.length == 0
  | none => false

/-- The critical section of the back end, behind the wait. -/
def swap (s : AsyncLogging) : AsyncLogging :=
  { s with
    buffers := s.buffersToWrite
    buffersToWrite := s.buffers ++ [s.currentBuffer]
    currentBuffer := s.newBuffer1
    newBuffer1 := none
    nextBuffer := if s.nextBuffer.isNone then s.newBuffer2 else s.nextBuffer
    newBuffer2 := if s.nextBuffer.isNone then none else s.newBuffer2
    phase := .write 0
    swapped := s.lines.length }

/-- Refill a spare buffer from the written ones; `none` when the assertion fails. -/
def refill (spare : BufferPtr) (written : List BufferPtr) : Option (BufferPtr × List BufferPtr) :=
  match spare with
  | some b => some (some b, written)
  | none =>
    -- `std::move(buffersToWrite.back())`, behind an assertion that there is one
    match written.getLast? with
    | some (some b) => some (some b.reset, written.dropLast)
    | _ => none

/-- The end of an iteration of the back end. -/
def recycle (s : AsyncLogging) : AsyncLogging :=
  match refill s.newBuffer1 (s.buffersToWrite.take 2) with
  | none => { s with crashed := true }
  | some (newBuffer1, rest) =>
    match refill s.newBuffer2 rest with
    | none => { s with crashed := true }
    | some (newBuffer2, _) =>
      { s with
        newBuffer1 := newBuffer1
        newBuffer2 := newBuffer2
        buffersToWrite := []
        phase := .loopTest }

/-- One step of the back end. -/
def threadFunc (s : AsyncLogging) : Option AsyncLogging :=
  match s.phase with
  | .notStarted => none
  | .assertRunning =>
    -- `stop()` may have stored `running_` already
    some (if s.running then
      { s with
        newBuffer1 := some FixedBuffer.new
        newBuffer2 := some FixedBuffer.new
        buffersToWrite := []
        phase := .loopTest }
    else { s with crashed := true })
  | .loopTest =>
    some (if s.running then
      if spare s.newBuffer1 && spare s.newBuffer2 && s.buffersToWrite.isEmpty then
        { s with phase := .lock }
      else { s with crashed := true }
    else { s with phase := .exited })
  | .lock => some (if s.buffers.isEmpty then { s with phase := .waiting } else s.swap)
  | .waiting => some s.swap
  | .write i =>
    match s.buffersToWrite[i]? with
    | some (some b) => some { s with written := s.written ++ b.data, phase := .write (i + 1) }
    | some none => some { s with crashed := true }
    | none => some { s with phase := .recycle }
  | .recycle => some s.recycle
  | .exited => none

/-- One step. -/
def step (s : AsyncLogging) (l : Label) : Option AsyncLogging :=
  if s.crashed then none
  else
    match l with
    | .append t logline =>
      if s.calls t = none then
        some { s.append logline with
          lines := s.lines ++ [logline]
          calls := Function.update s.calls t (some s.lines.length) }
      else none
    | .appendReturn t =>
      match s.calls t with
      | some i => some { s with
          calls := Function.update s.calls t none
          returned := s.returned ++ [i] }
      | none => none
    | .startStore =>
      if s.main = .fresh then some { s with running := true, main := .starting } else none
    | .startThread =>
      if s.main = .starting then some { s with phase := .assertRunning, main := .started } else none
    | .stopCall =>
      if s.main = .started then some { s with due := s.returned, main := .stopping } else none
    | .stopStore =>
      if s.main = .stopping then some { s with running := false, main := .joining } else none
    | .stopJoin =>
      if s.main = .joining ∧ s.phase = .exited then some { s with main := .stopped } else none
    | .threadFunc => s.threadFunc

/-- What a step of the back end can do. -/
inductive ThreadStep (s : AsyncLogging) : AsyncLogging → Prop
  | start (hphase : s.phase = .assertRunning) (hrun : s.running = true) :
      ThreadStep s { s with
        newBuffer1 := some FixedBuffer.new
        newBuffer2 := some FixedBuffer.new
        buffersToWrite := []
        phase := .loopTest }
  | notRunning (hphase : s.phase = .assertRunning) : ThreadStep s { s with crashed := true }
  | enter (hphase : s.phase = .loopTest) (hrun : s.running = true)
      (hspare1 : spare s.newBuffer1 = true) (hspare2 : spare s.newBuffer2 = true)
      (hempty : s.buffersToWrite.isEmpty = true) :
      ThreadStep s { s with phase := .lock }
  | notSpare (hphase : s.phase = .loopTest)
      (hspare : ¬ (spare s.newBuffer1 && spare s.newBuffer2 && s.buffersToWrite.isEmpty) = true) :
      ThreadStep s { s with crashed := true }
  | leave (hphase : s.phase = .loopTest) : ThreadStep s { s with phase := .exited }
  | wait (hphase : s.phase = .lock) : ThreadStep s { s with phase := .waiting }
  | swap (hphase : s.phase = .lock ∨ s.phase = .waiting) : ThreadStep s s.swap
  | write (i : ℕ) (b : FixedBuffer kLargeBuffer) (hphase : s.phase = .write i)
      (hb : s.buffersToWrite[i]? = some (some b)) :
      ThreadStep s { s with written := s.written ++ b.data, phase := .write (i + 1) }
  | nullPointer (i : ℕ) (hphase : s.phase = .write i) (hnull : s.buffersToWrite[i]? = some none) :
      ThreadStep s { s with crashed := true }
  | writeEnd (i : ℕ) (hphase : s.phase = .write i) (hend : s.buffersToWrite.length ≤ i) :
      ThreadStep s { s with phase := .recycle }
  | recycle (newBuffer1 newBuffer2 : BufferPtr) (rest rest' : List BufferPtr)
      (hphase : s.phase = .recycle)
      (h1 : refill s.newBuffer1 (s.buffersToWrite.take 2) = some (newBuffer1, rest))
      (h2 : refill s.newBuffer2 rest = some (newBuffer2, rest')) :
      ThreadStep s { s with
        newBuffer1 := newBuffer1
        newBuffer2 := newBuffer2
        buffersToWrite := []
        phase := .loopTest }
  | noBuffer (hphase : s.phase = .recycle)
      (hnone : ∀ p rest q rest', refill s.newBuffer1 (s.buffersToWrite.take 2) = some (p, rest) →
        refill s.newBuffer2 rest ≠ some (q, rest')) :
      ThreadStep s { s with crashed := true }

theorem threadStep_of_threadFunc {s t : AsyncLogging} (h : s.threadFunc = some t) :
    ThreadStep s t := by
  unfold threadFunc at h
  cases hphase : s.phase with
  | notStarted => simp [hphase] at h
  | exited => simp [hphase] at h
  | assertRunning =>
    simp only [hphase, Option.some.injEq] at h
    subst h
    split_ifs with hrun
    · exact .start hphase hrun
    · simpa only [hphase] using ThreadStep.notRunning hphase
  | loopTest =>
    simp only [hphase, Option.some.injEq] at h
    subst h
    split_ifs with hrun hspare
    · simp only [Bool.and_eq_true] at hspare
      exact .enter hphase hrun hspare.1.1 hspare.1.2 hspare.2
    · simpa only [hphase] using ThreadStep.notSpare hphase hspare
    · exact .leave hphase
  | lock =>
    simp only [hphase, Option.some.injEq] at h
    subst h
    split_ifs
    · exact .wait hphase
    · exact .swap (.inl hphase)
  | waiting =>
    simp only [hphase, Option.some.injEq] at h
    subst h
    exact .swap (.inr hphase)
  | write i =>
    simp only [hphase] at h
    split at h <;> cases h
    · exact .write i _ hphase ‹_›
    · simpa only [hphase] using ThreadStep.nullPointer i hphase ‹_›
    · exact .writeEnd i hphase (List.getElem?_eq_none_iff.1 ‹_›)
  | recycle =>
    simp only [hphase, Option.some.injEq] at h
    subst h
    unfold AsyncLogging.recycle
    rcases h1 : refill s.newBuffer1 (s.buffersToWrite.take 2) with _ | ⟨newBuffer1, rest⟩
    · have hnone := ThreadStep.noBuffer hphase fun p rest q rest' hp => by cases h1.symm.trans hp
      simpa only [hphase] using hnone
    · rcases h2 : refill s.newBuffer2 rest with _ | ⟨newBuffer2, rest'⟩
      · have hnone := ThreadStep.noBuffer hphase fun p rest q rest' hp hq => by
          cases h1.symm.trans hp
          cases h2.symm.trans hq
        simpa only [h2, hphase] using hnone
      · simpa only [h2] using ThreadStep.recycle newBuffer1 newBuffer2 rest rest' hphase h1 h2

end AsyncLogging

end TinyNetwork
