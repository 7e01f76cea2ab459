import TinyNetwork.Log.StopLoss

/-!
# The exchange of buffers never runs out

`append` takes the spare buffer `nextBuffer_` only when it puts a full one into `buffers_`, so
whenever the back end has to give `newBuffer2` away, the list that it writes has two buffers at
least, and it gets both its own back (`Exchange`).

`buffer_exchange`: in every state there is a current buffer, `nextBuffer_` is missing only when
`buffers_` is not empty, and every assertion in the loop of `threadFunc` holds.
-/

namespace TinyNetwork

open Lts

namespace AsyncLogging

/-- The assertions that the back end makes in its loop, at the place where it stands. -/
def AssertionsHold (s : AsyncLogging) : Prop :=
  match s.phase with
  | .loopTest =>
    spare s.newBuffer1 = true ∧ spare s.newBuffer2 = true ∧ s.buffersToWrite.isEmpty = true
  | .write _ => s.buffersToWrite ≠ [] ∧ ∀ p ∈ s.buffersToWrite, p.isSome
  | .recycle =>
    -- each `pop_back` finds a buffer
    ∃ newBuffer1 rest newBuffer2 rest',
      refill s.newBuffer1 (s.buffersToWrite.take 2) = some (newBuffer1, rest) ∧
      refill s.newBuffer2 rest = some (newBuffer2, rest')
  | _ => True

/-- While the back end writes it has given one spare buffer away, or both, and as many buffers at
least are in its list. -/
structure Given (newBuffer1 newBuffer2 : BufferPtr) (buffersToWrite : List BufferPtr) : Prop where
  first : newBuffer1 = none
  second : newBuffer2 = none ∧ 2 ≤ buffersToWrite.length ∨
    spare newBuffer2 = true ∧ 1 ≤ buffersToWrite.length
  toWrite : ∀ p ∈ buffersToWrite, p.isSome

/-- Where the buffers are. -/
structure Exchange (s : AsyncLogging) : Prop where
  current : s.currentBuffer.isSome
  next : s.nextBuffer = none → s.buffers ≠ []
  buffers : ∀ p ∈ s.buffers, p.isSome
  spares : s.phase = .loopTest ∨ s.phase = .lock ∨ s.phase = .waiting →
    spare s.newBuffer1 = true ∧ spare s.newBuffer2 = true ∧ s.buffersToWrite.isEmpty = true
  given : (∃ i, s.phase = .write i) ∨ s.phase = .recycle →
    Given s.newBuffer1 s.newBuffer2 s.buffersToWrite
  crashed : s.crashed = true → s.phase = .assertRunning

theorem exchange_new : Exchange new := by
  refine ⟨rfl, ?_, ?_, ?_, ?_, ?_⟩ <;> simp [new]

theorem spare_isSome {p : BufferPtr} (h : spare p = true) : p.isSome := by
  cases p with
  | none => cases h
  | some b => rfl

/-- A spare buffer that is there is not refilled. -/
theorem refill_spare {p : BufferPtr} (h : spare p = true) (written : List BufferPtr) :
    refill p written = some (p, written) := by
  cases p with
  | none => cases h
  | some b => rfl

/-- A buffer that is gone is replaced by the last one written, emptied. -/
theorem refill_none {written : List BufferPtr} (hne : written ≠ [])
    (hsome : ∀ p ∈ written, p.isSome) :
    ∃ p, refill none written = some (p, written.dropLast) ∧ spare p = true := by
  obtain ⟨b, hb⟩ := Option.isSome_iff_exists.1 (hsome _ (List.getLast_mem hne))
  refine ⟨some b.reset, ?_, rfl⟩
  rw [refill, List.getLast?_eq_some_getLast hne, hb]

/-- **The refill** at the end of an iteration finds a buffer for each one given away. -/
theorem Given.refill {newBuffer1 newBuffer2 : BufferPtr} {buffersToWrite : List BufferPtr}
    (h : Given newBuffer1 newBuffer2 buffersToWrite) :
    ∃ p rest q rest', AsyncLogging.refill newBuffer1 (buffersToWrite.take 2) = some (p, rest) ∧
      AsyncLogging.refill newBuffer2 rest = some (q, rest') ∧ spare p = true ∧ spare q = true := by
  set written := buffersToWrite.take 2 with hwritten
  have hlen : written.length = min 2 buffersToWrite.length := List.length_take
  have hsome : ∀ p ∈ written, p.isSome := fun p hp => h.toWrite p (List.mem_of_mem_take hp)
  have hne : written ≠ [] := by
    rw [← List.length_pos_iff, hlen]
    rcases h.second with ⟨-, hle⟩ | ⟨-, hle⟩ <;> omega
  obtain ⟨p, hp, hspare⟩ := refill_none hne hsome
  rw [h.first]
  rcases h.second with ⟨hnone, htwo⟩ | ⟨hspare2, -⟩
  · have hrest : written.dropLast ≠ [] := by
      rw [← List.length_pos_iff, List.length_dropLast, hlen]
      omega
    obtain ⟨q, hq, hspareq⟩ := refill_none hrest fun q hq => hsome q (List.mem_of_mem_dropLast hq)
    rw [hnone]
    exact ⟨p, _, q, _, hp, hq, hspare, hspareq⟩
  · exact ⟨p, _, newBuffer2, _, hp, refill_spare hspare2 _, hspare, hspare2⟩

/-- The assertions follow from where the buffers are. -/
theorem Exchange.assertionsHold {s : AsyncLogging} (hs : s.Exchange) : s.AssertionsHold := by
  unfold AssertionsHold
  cases hphase : s.phase with
  | loopTest => exact hs.spares (.inl hphase)
  | write i =>
    have hgiven := hs.given (.inl ⟨i, hphase⟩)
    refine ⟨?_, hgiven.toWrite⟩
    rw [← List.length_pos_iff]
    rcases hgiven.second with ⟨-, h⟩ | ⟨-, h⟩ <;> omega
  | recycle =>
    obtain ⟨p, rest, q, rest', hp, hq, -, -⟩ := (hs.given (.inr hphase)).refill
    exact ⟨p, rest, q, rest', hp, hq⟩
  | _ => trivial

/-! ### Every step -/

theorem exchange_append {s : AsyncLogging} (hs : s.Exchange) (logline : Bytes) :
    (s.append logline).Exchange := by
  obtain ⟨current, hcurrent⟩ := Option.isSome_iff_exists.1 hs.current
  unfold append
  rw [hcurrent]
  simp only
  split_ifs
  · exact { hs with current := rfl }
  · refine { hs with current := rfl, next := fun _ => by simp, buffers := fun p hp => ?_ }
    rcases List.mem_append.1 hp with hp | hp
    · exact hs.buffers p hp
    · rw [List.mem_singleton.1 hp]
      rfl

/-- The swap gives `newBuffer2` away only if `append` has filled a buffer. -/
theorem exchange_swap {s : AsyncLogging} (hs : s.Exchange)
    (hphase : s.phase = .lock ∨ s.phase = .waiting) (hlive : ¬ s.crashed = true) :
    s.swap.Exchange := by
  obtain ⟨hspare1, hspare2, hempty⟩ := hs.spares (.inr hphase)
  have hnil : s.buffersToWrite = [] := List.isEmpty_iff.1 hempty
  have hsome : ∀ p ∈ s.buffers ++ [s.currentBuffer], p.isSome := by
    intro p hp
    rcases List.mem_append.1 hp with hp | hp
    · exact hs.buffers p hp
    · rw [List.mem_singleton.1 hp]
      exact hs.current
  refine ⟨spare_isSome hspare1, ?_, ?_, by simp [swap], fun _ => ⟨rfl, ?_, hsome⟩,
    fun hcrash => absurd hcrash hlive⟩
  · intro hnext
    exfalso
    simp only [swap] at hnext
    split_ifs at hnext with hnone
    · rw [hnext] at hspare2
      cases hspare2
    · exact hnone (by rw [hnext]; rfl)
  · show ∀ p ∈ s.buffersToWrite, p.isSome
    simp [hnil]
  · show (if s.nextBuffer.isNone then none else s.newBuffer2) = none ∧
        2 ≤ (s.buffers ++ [s.currentBuffer]).length ∨
      spare (if s.nextBuffer.isNone then none else s.newBuffer2) = true ∧
        1 ≤ (s.buffers ++ [s.currentBuffer]).length
    split_ifs with hnone
    · have hpos := List.length_pos_iff.2 (hs.next (Option.isNone_iff_eq_none.1 hnone))
      exact .inl ⟨rfl, by simp; omega⟩
    · exact .inr ⟨hspare2, by simp⟩

theorem exchange_threadFunc {s t : AsyncLogging} (hs : s.Exchange) (hlive : ¬ s.crashed = true)
    (h : s.threadFunc = some t) : t.Exchange := by
  cases threadStep_of_threadFunc h with
  | start hphase =>
    exact ⟨hs.current, hs.next, hs.buffers, fun _ => ⟨rfl, rfl, rfl⟩, by simp,
      fun hcrash => absurd hcrash hlive⟩
  | notRunning hphase =>
    exact ⟨hs.current, hs.next, hs.buffers, by simp [hphase], by simp [hphase], fun _ => hphase⟩
  | enter hphase _ hspare1 hspare2 hempty =>
    exact ⟨hs.current, hs.next, hs.buffers, fun _ => ⟨hspare1, hspare2, hempty⟩, by simp,
      fun hcrash => absurd hcrash hlive⟩
  | notSpare hphase hspare =>
    obtain ⟨hspare1, hspare2, hempty⟩ := hs.spares (.inl hphase)
    exact absurd (by simp [hspare1, hspare2, hempty]) hspare
  | leave hphase =>
    exact ⟨hs.current, hs.next, hs.buffers, by simp, by simp, fun hcrash => absurd hcrash hlive⟩
  | wait hphase =>
    exact ⟨hs.current, hs.next, hs.buffers, fun _ => hs.spares (.inr (.inl hphase)), by simp,
      fun hcrash => absurd hcrash hlive⟩
  | swap hphase => exact exchange_swap hs hphase hlive
  | write i b hphase =>
    exact ⟨hs.current, hs.next, hs.buffers, by simp, fun _ => hs.given (.inl ⟨i, hphase⟩),
      fun hcrash => absurd hcrash hlive⟩
  | nullPointer i hphase hnull =>
    cases (hs.given (.inl ⟨i, hphase⟩)).toWrite none (List.mem_of_getElem? hnull)
  | writeEnd i hphase =>
    exact ⟨hs.current, hs.next, hs.buffers, by simp, fun _ => hs.given (.inl ⟨i, hphase⟩),
      fun hcrash => absurd hcrash hlive⟩
  | recycle newBuffer1 newBuffer2 rest rest' hphase h1 h2 =>
    obtain ⟨p, rest, q, rest', hp, hq, hspare1, hspare2⟩ := (hs.given (.inr hphase)).refill
    cases h1.symm.trans hp
    cases h2.symm.trans hq
    exact ⟨hs.current, hs.next, hs.buffers, fun _ => ⟨hspare1, hspare2, rfl⟩, by simp,
      fun hcrash => absurd hcrash hlive⟩
  | noBuffer hphase hnone =>
    obtain ⟨p, rest, q, rest', hp, hq, -, -⟩ := (hs.given (.inr hphase)).refill
    exact absurd hq (hnone p rest q rest' hp)

theorem exchange_step {s t : AsyncLogging} {l : Label} (hs : s.Exchange)
    (h : step s l = some t) : t.Exchange := by
  have hlive := live_of_step h
  unfold step at h
  rw [if_neg hlive] at h
  cases l with
  | append tid logline =>
    simp only at h
    split_ifs at h
    cases h
    have happend := exchange_append hs logline
    exact { happend with }
  | startThread =>
    simp only at h
    split_ifs at h
    cases h
    exact ⟨hs.current, hs.next, hs.buffers, by simp, by simp, fun _ => rfl⟩
  | threadFunc => exact exchange_threadFunc hs hlive h
  | _ =>
    simp only at h
    split at h <;> cases h
    exact { hs with }

/-- **The exchange of buffers never runs out.**  In every state that any interleaving of the front
end, the back end and the owner reaches, there is a current buffer, the spare one is missing only
if `buffers_` is not empty, and the back end fails none of the assertions in its loop: the only one
that can fail is that of `running_` in front of it. -/
theorem buffer_exchange {ls : List Label} {s : AsyncLogging} (h : run step new ls = some s) :
    s.currentBuffer.isSome ∧ (s.nextBuffer = none → s.buffers ≠ []) ∧ s.AssertionsHold ∧
      (s.crashed = true → s.phase = .assertRunning) := by
  have hs : s.Exchange := run_preserves (fun _ _ _ hs hstep => exchange_step hs hstep) exchange_new h
  exact ⟨hs.current, hs.next, hs.assertionsHold, hs.crashed⟩

/-- The back end stands in front of the refill after an iteration in which it gave one buffer
away. -/
theorem buffer_exchange_recycle :
    ∃ s : AsyncLogging, run step new [.startStore, .startThread, .threadFunc, .threadFunc,
        .threadFunc, .append 1 [97], .threadFunc, .threadFunc, .threadFunc] = some s ∧
      s.phase = .recycle ∧ s.AssertionsHold := by
  have hrun : run step new [.startStore, .startThread, .threadFunc, .threadFunc, .threadFunc,
      .append 1 [97], .threadFunc, .threadFunc, .threadFunc] = some _ := rfl
  exact ⟨_, hrun, rfl, (buffer_exchange hrun).2.2.1⟩

end AsyncLogging

end TinyNetwork
