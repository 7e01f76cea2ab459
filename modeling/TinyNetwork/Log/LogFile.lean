import TinyNetwork.Lib.Run
import TinyNetwork.Lib.Bytes
import Mathlib.Algebra.Order.Ring.Int

/-!
# `class LogFile` (src/log/LogFile.h, src/log/LogFile.cpp) and `class FileUtil`
(src/log/FileUtil.h, src/log/FileUtil.cpp)

Log files are rolled when they hold more than `rollSize` bytes, or at the first check in a new
period of a day.  The name of a file is made of the second in which it was opened, and `rollFile`
does not open two files in one second.

The readings of `::time` come with the labels; a label is one call of `append`, of which the record,
the clock at its first and the clock at its second reading are given.  `fwrite_unlocked` writes all
it is given.  `records` and `old` are history: the records of a file with the clock behind them, and
the files that were rolled.

`roll_size`: a file grows beyond `rollSize` only while the clock reads the second in which it was
opened.
-/

namespace TinyNetwork

open Lts

/-- A log file: the second in its name, `writtenBytes_`, and what was written to it. -/
structure FileUtil where
  opened : ℤ
  writtenBytes : ℤ := 0
  records : List (Bytes × ℤ) := []

namespace FileUtil

def append (f : FileUtil) (data : Bytes) (now : ℤ) : FileUtil :=
  { f with writtenBytes := f.writtenBytes + data.length, records := f.records ++ [(data, now)] }

end FileUtil

/-- The fields of the class; the file is missing until `rollFile` has opened one. -/
structure LogFile where
  rollSize : ℤ
  flushInterval : ℤ
  checkEveryN : ℤ
  count : ℤ := 0
  startOfPeriod : ℤ := 0
  lastRoll : ℤ := 0
  lastFlush : ℤ := 0
  file : Option FileUtil := none
  clock : ℤ := 0
  old : List FileUtil := []

namespace LogFile

def kRollPerSeconds : ℤ := 60 * 60 * 24

/-- `now / kRollPerSeconds_ * kRollPerSeconds_`. -/
def period (now : ℤ) : ℤ := now.tdiv kRollPerSeconds * kRollPerSeconds

/-- `rollFile()`, when its reading of the clock is `now`. -/
def rollFile (s : LogFile) (now : ℤ) : LogFile :=
  if s.lastRoll < now then
    { s with
      lastRoll := now
      lastFlush := now
      startOfPeriod := period now
      file := some { opened := now }
      old := s.old ++ s.file.toList }
  else s

/-- `appendInLock` behind `file_->append(data, len)`, which has left the file `f`. -/
def afterAppend (s : LogFile) (f : FileUtil) (now now' : ℤ) : LogFile :=
  let s := { s with file := some f }
  if s.rollSize < f.writtenBytes then s.rollFile now
  else
    let s := { s with count := s.count + 1 }
    if s.checkEveryN ≤ s.count then
      let s := { s with count := 0 }
      if period now ≠ s.startOfPeriod then s.rollFile now'
      else if s.flushInterval < now - s.lastFlush then { s with lastFlush := now }
      else s
    else s

/-- `appendInLock(data, len)`; `none` when there is no file. -/
def appendInLock (s : LogFile) (data : Bytes) (now now' : ℤ) : Option LogFile :=
  s.file.map fun f => s.afterAppend (f.append data now) now now'

/-- The members as the constructor initializes them. -/
def empty (rollSize flushInterval checkEveryN now : ℤ) : LogFile where
  rollSize := rollSize
  flushInterval := flushInterval
  checkEveryN := checkEveryN
  clock := now

/-- The constructor. -/
def construct (rollSize flushInterval checkEveryN now : ℤ) : LogFile :=
  (empty rollSize flushInterval checkEveryN now).rollFile now

/-- A call of `append`. -/
structure Label where
  data : Bytes
  now : ℤ
  now' : ℤ

/-- One call; the clock does not go back. -/
def step (s : LogFile) (l : Label) : Option LogFile :=
  if s.clock ≤ l.now ∧ l.now ≤ l.now' then
    (s.appendInLock l.data l.now l.now').map fun t => { t with clock := l.now' }
  else none

/-- All files, the current one last. -/
def files (s : LogFile) : List FileUtil := s.old ++ s.file.toList

/-- The number of bytes of some records. -/
def total (records : List (Bytes × ℤ)) : ℤ := (records.map fun r => (r.1.length : ℤ)).sum

@[simp] theorem total_nil : total [] = 0 := rfl

@[simp] theorem total_concat (records : List (Bytes × ℤ)) (r : Bytes × ℤ) :
    total (records ++ [r]) = total records + r.1.length := by
  simp [total]

/-- No file exceeds `rollSize`, other than by its last record. -/
def RespectsRollSize (s : LogFile) : Prop :=
  ∀ f ∈ s.files, ∀ pre r, f.records = pre ++ [r] → total pre ≤ s.rollSize

/-- The bytes in front of a record exceed `rollSize` only if the record before it was written in
the second in which the file was opened. -/
def Within (rollSize : ℤ) (f : FileUtil) : Prop :=
  ∀ pre p r post, f.records = pre ++ p :: r :: post →
    total (pre ++ [p]) ≤ rollSize ∨ p.2 = f.opened

/-- The next record may be written as well. -/
def Open (rollSize : ℤ) (f : FileUtil) : Prop :=
  ∀ pre p, f.records = pre ++ [p] → total f.records ≤ rollSize ∨ p.2 = f.opened

theorem within_nil (rollSize now : ℤ) : Within rollSize { opened := now } := by
  intro pre p r post h
  simp at h

theorem open_nil (rollSize now : ℤ) : Open rollSize { opened := now } := by
  intro pre p h
  simp at h

@[simp] theorem records_append (f : FileUtil) (data : Bytes) (now : ℤ) :
    (f.append data now).records = f.records ++ [(data, now)] := rfl

@[simp] theorem opened_append (f : FileUtil) (data : Bytes) (now : ℤ) :
    (f.append data now).opened = f.opened := rfl

/-- A record behind a file that is still open. -/
theorem Within.append {rollSize : ℤ} {f : FileUtil} (hf : Within rollSize f)
    (hopen : Open rollSize f) (data : Bytes) (now : ℤ) : Within rollSize (f.append data now) := by
  intro pre p r post h
  rw [records_append] at h
  rcases post.eq_nil_or_concat' with rfl | ⟨post', q, rfl⟩
  · -- the new record is `r`, so `p` was the last one
    have hsplit : f.records ++ [(data, now)] = (pre ++ [p]) ++ [r] := by simpa using h
    have hrecords := (List.append_inj' hsplit rfl).1
    have hlast := hopen pre p hrecords
    rwa [hrecords] at hlast
  · have hsplit : f.records ++ [(data, now)] = (pre ++ p :: r :: post') ++ [q] := by simpa using h
    exact hf pre p r post' (List.append_inj' hsplit rfl).1

/-- A file that has just got a record is open if the record did not fill it, or was written in the
second in which the file was opened. -/
theorem open_append {rollSize : ℤ} {f : FileUtil} {data : Bytes} {now : ℤ}
    (h : total (f.append data now).records ≤ rollSize ∨ now = f.opened) :
    Open rollSize (f.append data now) := by
  intro pre p hsplit
  rcases h with hle | hnow
  · exact .inl hle
  · have hp : (data, now) = p := List.singleton_inj.1 (List.append_inj' hsplit rfl).2
    rw [← hp]
    exact .inr hnow

/-! ### What a call keeps -/

/-- The files are in order, each within its bounds, and the current one is that of the last roll. -/
structure Filed (rollSize : ℤ) (s : LogFile) : Prop where
  rollSize_eq : s.rollSize = rollSize
  within : ∀ f ∈ s.files, Within rollSize f
  sorted : (s.files.map FileUtil.opened).Pairwise (· < ·)
  le : ∀ f ∈ s.files, f.opened ≤ s.lastRoll
  bytes : ∀ f ∈ s.file, f.writtenBytes = total f.records
  last : ∀ f ∈ s.file, f.opened = s.lastRoll

/-- Between two calls the next record may be written. -/
structure Inv (rollSize : ℤ) (s : LogFile) : Prop extends Filed rollSize s where
  open_ : ∀ f ∈ s.file, Open rollSize f
  clock : s.file.isSome = true → s.lastRoll ≤ s.clock

/-- Rolling the file opens a later one, or does nothing. -/
theorem rollFile_cases (s : LogFile) (now : ℤ) :
    (s.lastRoll < now ∧ (s.rollFile now).file = some { opened := now } ∧
        (s.rollFile now).old = s.files ∧ (s.rollFile now).lastRoll = now) ∨
      (now ≤ s.lastRoll ∧ s.rollFile now = s) := by
  unfold rollFile
  split_ifs with h
  · exact .inl ⟨h, rfl, rfl, rfl⟩
  · exact .inr ⟨not_lt.1 h, rfl⟩

@[simp] theorem rollSize_rollFile (s : LogFile) (now : ℤ) :
    (s.rollFile now).rollSize = s.rollSize := by
  unfold rollFile
  split_ifs <;> rfl

@[simp] theorem clock_rollFile (s : LogFile) (now : ℤ) : (s.rollFile now).clock = s.clock := by
  unfold rollFile
  split_ifs <;> rfl

theorem Filed.rollFile {rollSize : ℤ} {s : LogFile} (hs : Filed rollSize s) (now : ℤ) :
    Filed rollSize (s.rollFile now) := by
  rcases s.rollFile_cases now with ⟨hlt, hfile, hold, hroll⟩ | ⟨-, heq⟩
  · have hfiles : (s.rollFile now).files = s.files ++ [{ opened := now }] := by
      rw [files, hfile, hold]
      rfl
    refine ⟨(s.rollSize_rollFile now).trans hs.rollSize_eq, ?_, ?_, ?_, ?_, ?_⟩
    · rw [hfiles]
      intro f hf
      rcases List.mem_append.1 hf with hf | hf
      · exact hs.within f hf
      · rw [List.mem_singleton.1 hf]
        exact within_nil rollSize now
    · rw [hfiles, List.map_append, List.pairwise_append]
      refine ⟨hs.sorted, List.pairwise_singleton _ _, fun a ha b hb => ?_⟩
      obtain ⟨f, hf, rfl⟩ := List.mem_map.1 ha
      rw [List.mem_singleton.1 hb]
      exact lt_of_le_of_lt (hs.le f hf) hlt
    · rw [hfiles, hroll]
      intro f hf
      rcases List.mem_append.1 hf with hf | hf
      · exact ((hs.le f hf).trans_lt hlt).le
      · rw [List.mem_singleton.1 hf]
    · rw [hfile]
      rintro f ⟨⟩
      rfl
    · rw [hfile, hroll]
      rintro f ⟨⟩
      rfl
  · rwa [heq]

/-- A record written to the current file. -/
theorem Inv.append {rollSize : ℤ} {s : LogFile} (hs : Inv rollSize s) {f : FileUtil}
    (hf : s.file = some f) (data : Bytes) (now : ℤ) :
    Filed rollSize { s with file := some (f.append data now) } := by
  have hmem : f ∈ s.files := by simp [files, hf]
  have hfiles : s.files = s.old ++ [f] := by simp [files, hf]
  have hsorted := hs.sorted
  have hwithin := hs.within
  have hle := hs.le
  simp only [hfiles] at hsorted hwithin hle
  refine ⟨hs.rollSize_eq, ?_, ?_, ?_, ?_, ?_⟩
  · intro g hg
    rcases List.mem_append.1 hg with hg | hg
    · exact hwithin g (List.mem_append_left _ hg)
    · rw [List.mem_singleton.1 hg]
      exact (hs.within f hmem).append (hs.open_ f hf) data now
  · simpa [files] using hsorted
  · intro g hg
    rcases List.mem_append.1 hg with hg | hg
    · exact hle g (List.mem_append_left _ hg)
    · rw [List.mem_singleton.1 hg]
      exact hle f (by simp)
  · rintro g ⟨⟩
    simp [FileUtil.append, hs.bytes f hf]
  · rintro g ⟨⟩
    exact hs.last f hf

/-- After an attempt to roll, the current file is open if it was, or the attempt was refused in a
second in which it may grow. -/
theorem open_rollFile {rollSize : ℤ} {s : LogFile} {now : ℤ}
    (hopen : now ≤ s.lastRoll → ∀ f ∈ s.file, Open rollSize f) :
    ∀ f ∈ (s.rollFile now).file, Open rollSize f := by
  rcases s.rollFile_cases now with ⟨-, hfile, -, -⟩ | ⟨hle, heq⟩
  · rw [hfile]
    rintro f ⟨⟩
    exact open_nil rollSize now
  · rw [heq]
    exact hopen hle

theorem lastRoll_rollFile_le {s : LogFile} {now k : ℤ} (hs : s.lastRoll ≤ k) (hnow : now ≤ k) :
    (s.rollFile now).lastRoll ≤ k := by
  rcases s.rollFile_cases now with ⟨-, -, -, hroll⟩ | ⟨-, heq⟩
  · rwa [hroll]
  · rwa [heq]

/-- The counters and the times play no part. -/
theorem Filed.same {rollSize : ℤ} {s t : LogFile} (hs : Filed rollSize s)
    (hsize : t.rollSize = s.rollSize) (hold : t.old = s.old) (hfile : t.file = s.file)
    (hroll : t.lastRoll = s.lastRoll) : Filed rollSize t := by
  have hfiles : t.files = s.files := by rw [files, files, hold, hfile]
  refine ⟨hsize.trans hs.rollSize_eq, ?_, ?_, ?_, ?_, ?_⟩
  · rw [hfiles]
    exact hs.within
  · rw [hfiles]
    exact hs.sorted
  · rw [hfiles, hroll]
    exact hs.le
  · rw [hfile]
    exact hs.bytes
  · rw [hfile, hroll]
    exact hs.last

/-- What `appendInLock` can do behind the write. -/
theorem afterAppend_cases (s : LogFile) (g : FileUtil) (now now' : ℤ) :
    s.afterAppend g now now' = rollFile { s with file := some g } now ∨
    (s.checkEveryN ≤ s.count + 1 ∧
      s.afterAppend g now now' = rollFile { s with file := some g, count := 0 } now') ∨
    (s.checkEveryN ≤ s.count + 1 ∧ period now = s.startOfPeriod ∧ ∃ lastFlush,
      s.afterAppend g now now' =
        { s with file := some g, count := 0, lastFlush := lastFlush }) ∨
    (s.count + 1 < s.checkEveryN ∧
      s.afterAppend g now now' = { s with file := some g, count := s.count + 1 }) := by
  unfold afterAppend
  simp only
  split_ifs with hsize hcheck hperiod hflush
  · exact .inl rfl
  · exact .inr (.inl ⟨hcheck, rfl⟩)
  · exact .inr (.inr (.inl ⟨hcheck, not_not.1 hperiod, _, rfl⟩))
  · exact .inr (.inr (.inl ⟨hcheck, not_not.1 hperiod, _, rfl⟩))
  · exact .inr (.inr (.inr ⟨not_le.1 hcheck, rfl⟩))

theorem appendInLock_spec {rollSize : ℤ} {s t : LogFile} {data : Bytes} {now now' : ℤ}
    (hs : Inv rollSize s) (hclock : s.clock ≤ now) (hle : now ≤ now')
    (h : s.appendInLock data now now' = some t) :
    Filed rollSize t ∧ (∀ f ∈ t.file, Open rollSize f) ∧ t.lastRoll ≤ now' := by
  obtain ⟨f, hf, rfl⟩ := Option.map_eq_some_iff.1 h
  have hfiled := hs.append hf data now
  have hroll : s.lastRoll ≤ now := (hs.clock (by rw [hf]; rfl)).trans hclock
  have hbytes : (f.append data now).writtenBytes = total (f.append data now).records :=
    hfiled.bytes _ rfl
  unfold afterAppend
  simp only
  split_ifs with hfull hcheck hperiod hflush
  · -- a refused attempt means that the clock still reads the second of the last roll
    refine ⟨hfiled.rollFile now, open_rollFile fun hrefused g hg => ?_,
      lastRoll_rollFile_le (hroll.trans hle) hle⟩
    obtain rfl : f.append data now = g := Option.some.inj hg
    exact open_append (.inr ((le_antisymm hrefused hroll).trans (hs.last f hf).symm))
  all_goals
    have hopen : Open rollSize (f.append data now) := by
      rw [hbytes, hs.rollSize_eq] at hfull
      exact open_append (.inl (not_lt.1 hfull))
  · refine ⟨Filed.rollFile ?_ now', open_rollFile fun _ g hg => ?_,
      lastRoll_rollFile_le (hroll.trans hle) le_rfl⟩
    · exact hfiled.same rfl rfl rfl rfl
    obtain rfl : f.append data now = g := Option.some.inj hg
    exact hopen
  all_goals
    refine ⟨hfiled.same rfl rfl rfl rfl, ?_, hroll.trans hle⟩
    rintro g ⟨⟩
    exact hopen

theorem inv_step {rollSize : ℤ} {s t : LogFile} {l : Label} (hs : Inv rollSize s)
    (h : step s l = some t) : Inv rollSize t := by
  unfold step at h
  split_ifs at h with hclock
  obtain ⟨u, hu, rfl⟩ := Option.map_eq_some_iff.1 h
  obtain ⟨hfiled, hopen, hroll⟩ := appendInLock_spec hs hclock.1 hclock.2 hu
  exact ⟨hfiled.same rfl rfl rfl rfl, hopen, fun _ => hroll⟩

theorem inv_construct (rollSize flushInterval checkEveryN now : ℤ) :
    Inv rollSize (construct rollSize flushInterval checkEveryN now) := by
  have hempty : Filed rollSize (empty rollSize flushInterval checkEveryN now) :=
    ⟨rfl, by simp [files, empty], by simp [files, empty], by simp [files, empty], by simp [empty],
      by simp [empty]⟩
  refine ⟨hempty.rollFile now, open_rollFile fun _ => by simp [empty], fun hfile => ?_⟩
  unfold construct at hfile ⊢
  rw [clock_rollFile]
  rcases (empty rollSize flushInterval checkEveryN now).rollFile_cases now with
    ⟨-, -, -, hroll⟩ | ⟨-, heq⟩
  · rw [hroll]
    exact le_rfl
  · rw [heq] at hfile
    cases hfile

/-- **The roll size.**  Over all calls of `append` and all readings of a clock that does not go
back: when a record is written behind another one in a file, the file holds at most `rollSize`
bytes, or the clock behind that other record read the second in which the file was opened.  The
files are opened in different seconds. -/
theorem roll_size {rollSize flushInterval checkEveryN now : ℤ} {ls : List Label} {s : LogFile}
    (h : run step (construct rollSize flushInterval checkEveryN now) ls = some s) :
    (∀ f ∈ s.files, ∀ pre p r post, f.records = pre ++ p :: r :: post →
      total (pre ++ [p]) ≤ rollSize ∨ p.2 = f.opened) ∧
    (s.files.map FileUtil.opened).Pairwise (· < ·) := by
  have hinv : Inv rollSize s :=
    run_preserves (fun _ _ _ hs hstep => inv_step hs hstep) (inv_construct _ _ _ _) h
  exact ⟨hinv.within, hinv.sorted⟩

/-- Two records fill a file of two bytes in the second in which it was opened, and a third one
follows in the next second: it goes to the same file, the fourth one does not. -/
theorem roll_size_twoSeconds :
    ∃ s, run step (construct 2 3 1024 100) [⟨[97, 98], 100, 100⟩, ⟨[99], 100, 100⟩,
        ⟨[100], 101, 101⟩, ⟨[101], 101, 101⟩] = some s ∧
      s.files.map (fun f => (f.opened, f.records.length)) = [(100, 3), (101, 1)] ∧
      ∀ f ∈ s.files, ∀ pre p r post, f.records = pre ++ p :: r :: post →
        total (pre ++ [p]) ≤ 2 ∨ p.2 = f.opened := by
  have hrun : (run step (construct 2 3 1024 100) [⟨[97, 98], 100, 100⟩, ⟨[99], 100, 100⟩,
      ⟨[100], 101, 101⟩, ⟨[101], 101, 101⟩]).map
        (fun s => s.files.map fun f => (f.opened, f.records.length)) =
      some [(100, 3), (101, 1)] := by decide
  obtain ⟨s, hs, hfiles⟩ := Option.map_eq_some_iff.1 hrun
  exact ⟨s, hs, hfiles, (roll_size hs).1⟩

/-- Four bytes are written to a file of at most three in the second in which it was opened, and the
next record follows them there. -/
theorem roll_refused :
    ∃ s, run step (construct 3 3 1024 100) [⟨[97, 98, 99, 100], 100, 100⟩, ⟨[101], 100, 100⟩] =
        some s ∧
      s.files.map (fun f => f.records.map Prod.fst) = [[[97, 98, 99, 100], [101]]] ∧
      ¬ RespectsRollSize s := by
  refine ⟨_, rfl, by decide, fun hrespects => ?_⟩
  have hle := hrespects _ (List.mem_singleton_self _) [([97, 98, 99, 100], 100)] ([101], 100) rfl
  exact absurd hle (by decide)

end LogFile

end TinyNetwork
