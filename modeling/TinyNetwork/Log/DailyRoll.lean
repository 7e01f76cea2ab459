import TinyNetwork.Log.ShortWrites

/-!
# The daily roll

`count_` counts the records since the last check, but not those behind which the file was found too
large.  In a later period than that of the current file every attempt to roll succeeds, so there
each record is counted or the file is rolled (`daily_step`).

`daily_roll`: of the records of later periods at most `checkEveryN` go to a file, whatever is
written and however much of it `fwrite_unlocked` accepts.
-/

namespace TinyNetwork

open Lts

namespace LogFile

/-- The number of records in a file that belong to a later period than the one in which it was
opened. -/
def later (f : FileUtil) : ℤ := f.records.countP fun r => decide (period f.opened < period r.2)

theorem period_mono {a b : ℤ} (h : a ≤ b) : period a ≤ period b :=
  Int.mul_le_mul_of_nonneg_right (Int.tdiv_le_tdiv (by decide) h) (by decide)

/-- A file opened in the current period has no later records yet. -/
theorem later_eq_zero {f : FileUtil} {now : ℤ} (hnow : period now ≤ period f.opened)
    (h : ∀ r ∈ f.records, r.2 ≤ now) : later f = 0 := by
  rw [later, Nat.cast_eq_zero, List.countP_eq_zero]
  intro r hr
  rw [decide_eq_true_eq, not_lt]
  exact (period_mono (h r hr)).trans hnow

/-- One more record is at most one more later one. -/
theorem later_concat_le {f g : FileUtil} {r : Bytes × ℤ} (hopened : g.opened = f.opened)
    (hrecords : g.records = f.records ++ [r]) : later g ≤ later f + 1 := by
  rw [later, later, hopened, hrecords, List.countP_append]
  have hone : [r].countP (fun r => decide (period f.opened < period r.2)) ≤ 1 :=
    List.countP_le_length
  omega

/-- What holds between two calls. -/
structure Daily (checkEveryN : ℤ) (s : LogFile) : Prop where
  every : s.checkEveryN = checkEveryN
  old : ∀ f ∈ s.old, later f ≤ checkEveryN
  current : ∀ f ∈ s.file, later f ≤ s.count
  nonneg : 0 ≤ s.count
  count_lt : s.count < checkEveryN
  opened : ∀ f ∈ s.file, f.opened = s.lastRoll ∧ s.startOfPeriod = period s.lastRoll
  lastRoll : ∀ f ∈ s.file, s.lastRoll ≤ s.clock
  times : ∀ f ∈ s.file, ∀ r ∈ f.records, r.2 ≤ s.clock

/-- Rolling opens a new file, or is refused and does nothing. -/
theorem Daily.rollFile {checkEveryN now clock : ℤ} {s : LogFile}
    (hevery : s.checkEveryN = checkEveryN) (hold : ∀ f ∈ s.files, later f ≤ checkEveryN) (hnonneg : 0 ≤ s.count)
    (hcount : s.count < checkEveryN) (hnow : now ≤ clock)
    (hrefused : now ≤ s.lastRoll → Daily checkEveryN { s with clock := clock }) :
    Daily checkEveryN { s.rollFile now with clock := clock } := by
  unfold LogFile.rollFile
  split_ifs with hlt
  · refine ⟨hevery, hold, ?_, hnonneg, hcount, ?_, ?_, ?_⟩
    all_goals rintro f ⟨⟩
    · exact hnonneg
    · exact ⟨rfl, rfl⟩
    · exact hnow
    · simp
  · exact hrefused (not_lt.1 hlt)

theorem daily_construct {checkEveryN : ℤ} (hN : 1 ≤ checkEveryN)
    (rollSize flushInterval now : ℤ) :
    Daily checkEveryN (construct rollSize flushInterval checkEveryN now) := by
  unfold construct LogFile.rollFile
  split_ifs
  · refine ⟨rfl, by simp [empty], ?_, le_rfl, hN, ?_, ?_, ?_⟩
    all_goals rintro f ⟨⟩
    · exact le_rfl
    · exact ⟨rfl, rfl⟩
    · exact le_rfl
    · simp
  · refine ⟨rfl, ?_, ?_, le_rfl, hN, ?_, ?_, ?_⟩
    all_goals simp [empty]

/-- The current file with one more record, behind which the count is `count`. -/
theorem Daily.written {checkEveryN now now' count lastFlush : ℤ} {s : LogFile} {f g : FileUtil}
    (hs : Daily checkEveryN s) (hf : s.file = some f) (hopened : g.opened = f.opened)
    (htimes : ∀ r ∈ g.records, r.2 ≤ now) (hclock : s.clock ≤ now) (hle : now ≤ now')
    (hlater : later g ≤ count) (hnonneg : 0 ≤ count) (hlt : count < checkEveryN) :
    Daily checkEveryN
      { s with file := some g, count := count, lastFlush := lastFlush, clock := now' } := by
  refine ⟨hs.every, hs.old, ?_, hnonneg, hlt, ?_, ?_, ?_⟩
  all_goals rintro _ ⟨⟩
  · exact hlater
  · rw [hopened]
    exact hs.opened f hf
  · exact (hs.lastRoll f hf).trans (hclock.trans hle)
  · exact fun r hr => (htimes r hr).trans hle

/-- What `appendInLock` does behind the write keeps it. -/
theorem Daily.afterAppend {checkEveryN now now' : ℤ} {data : Bytes} {s : LogFile} {f g : FileUtil}
    (hs : Daily checkEveryN s) (hf : s.file = some f) (hopened : g.opened = f.opened)
    (hrecords : g.records = f.records ++ [(data, now)]) (hclock : s.clock ≤ now)
    (hle : now ≤ now') :
    Daily checkEveryN { s.afterAppend g now now' with clock := now' } := by
  obtain ⟨hroll, hstart⟩ := hs.opened f hf
  have hcounted : later g ≤ s.count + 1 := by
    have hone := later_concat_le hopened hrecords
    have hbefore := hs.current f hf
    omega
  have hnonneg := hs.nonneg
  have hcount := hs.count_lt
  have hfiles : ∀ h ∈ s.old ++ [g], later h ≤ checkEveryN := by
    intro h hh
    rcases List.mem_append.1 hh with hh | hh
    · exact hs.old h hh
    · rw [List.mem_singleton.1 hh]
      omega
  have htimes : ∀ r ∈ g.records, r.2 ≤ now := by
    intro r hr
    rw [hrecords] at hr
    rcases List.mem_append.1 hr with hr | hr
    · exact (hs.times f hf r hr).trans hclock
    · rw [List.mem_singleton.1 hr]
  -- in the period of the current file nothing is late
  have hsame : period now ≤ period s.lastRoll → later g = 0 := by
    intro hnow
    exact later_eq_zero (by rwa [hopened, hroll]) htimes
  have hrefused : now ≤ s.lastRoll → later g = 0 := fun h => hsame (period_mono h)
  have hpos : 0 < checkEveryN := by omega
  rcases s.afterAppend_cases g now now' with h | ⟨-, h⟩ | ⟨-, hperiod, k, h⟩ | ⟨hcheck, h⟩
  all_goals rw [h]
  · refine Daily.rollFile hs.every hfiles hnonneg hcount hle fun h => ?_
    have hlater : later g ≤ s.count := (hrefused h).le.trans hnonneg
    exact hs.written hf hopened htimes hclock hle hlater hnonneg hcount
  · refine Daily.rollFile hs.every hfiles le_rfl hpos le_rfl fun h => ?_
    have hlater : later g ≤ 0 := (hrefused (hle.trans h)).le
    exact hs.written hf hopened htimes hclock hle hlater le_rfl hpos
  · have hlater : later g ≤ 0 := (hsame (hperiod.trans hstart).le).le
    exact hs.written hf hopened htimes hclock hle hlater le_rfl hpos
  · have hlt : s.count + 1 < checkEveryN := by rwa [← hs.every]
    have hone : 0 ≤ s.count + 1 := by omega
    exact hs.written hf hopened htimes hclock hle hcounted hone hlt

theorem daily_step {checkEveryN : ℤ} {s t : LogFile} {l : WriteLabel} (hs : Daily checkEveryN s)
    (h : stepWith s l = some t) : Daily checkEveryN t := by
  unfold stepWith at h
  split_ifs at h with hclock
  obtain ⟨f, hf, h⟩ := Option.bind_eq_some_iff.1 h
  obtain ⟨r, hr, rfl⟩ := Option.map_eq_some_iff.1 h
  obtain ⟨w, -, rfl⟩ := Option.map_eq_some_iff.1 hr
  exact hs.afterAppend hf rfl rfl hclock.1 hclock.2

/-- **The daily roll.**  Over all calls of `append`, all results of `fwrite_unlocked` and all
readings of a clock that does not go back: at most `checkEveryN` records of later periods than the
one in which a file was opened are written to it, and `count_` stays within its bounds. -/
theorem daily_roll {rollSize flushInterval checkEveryN now : ℤ} {ls : List WriteLabel} {s : LogFile}
    (hN : 1 ≤ checkEveryN)
    (h : run stepWith (construct rollSize flushInterval checkEveryN now) ls = some s) :
    (∀ f ∈ s.files, later f ≤ checkEveryN) ∧ 0 ≤ s.count ∧ s.count < checkEveryN := by
  have hdaily : Daily checkEveryN s :=
    run_preserves (fun _ _ _ hs hstep => daily_step hs hstep) (daily_construct hN _ _ _) h
  refine ⟨fun f hf => ?_, hdaily.nonneg, hdaily.count_lt⟩
  rcases List.mem_append.1 hf with hf | hf
  · exact hdaily.old f hf
  · have hle := hdaily.current f (by simpa using hf)
    have hlt := hdaily.count_lt
    omega

/-- A file of the last second of a day takes two records of the next day, one of them cut short,
before it is checked and rolled; the next file is rolled for its size. -/
theorem daily_roll_midnight :
    ∃ s, run stepWith (construct 3 3 2 86399) [⟨⟨[97], 86400, 86400⟩, [⟨1, false⟩]⟩,
        ⟨⟨[98, 99], 86400, 86401⟩, [⟨1, true⟩]⟩,
        ⟨⟨[97, 98, 99, 100], 86402, 86402⟩, [⟨4, false⟩]⟩] = some s ∧
      s.files.map (fun f => (f.opened, later f)) = [(86399, 2), (86401, 0), (86402, 0)] ∧
      (∀ f ∈ s.files, later f ≤ 2) ∧ 0 ≤ s.count ∧ s.count < 2 := by
  have hrun : (run stepWith (construct 3 3 2 86399) [⟨⟨[97], 86400, 86400⟩, [⟨1, false⟩]⟩,
      ⟨⟨[98, 99], 86400, 86401⟩, [⟨1, true⟩]⟩,
      ⟨⟨[97, 98, 99, 100], 86402, 86402⟩, [⟨4, false⟩]⟩]).map
        (fun s => s.files.map fun f => (f.opened, later f)) =
      some [(86399, 2), (86401, 0), (86402, 0)] := by decide
  obtain ⟨s, hs, hfiles⟩ := Option.map_eq_some_iff.1 hrun
  exact ⟨s, hs, hfiles, daily_roll (by decide) hs⟩

end LogFile

end TinyNetwork
