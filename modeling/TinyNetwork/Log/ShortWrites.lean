import TinyNetwork.Log.LogFile

/-!
# `FileUtil::append` with writes that fall short (src/log/FileUtil.cpp)

`fwrite_unlocked` returns the number of bytes it has accepted, which may be fewer than it was given.
The loop of `append` is left then, before that number is added to `written`.

`writtenBytes_exact_iff`: `writtenBytes()` is the number of bytes accepted as long as no short write
accepts anything.  The results of the calls come with the labels.  A call of `LogFile::append` goes
on behind the write as it does where all writes are full.
-/

namespace TinyNetwork

open Lts

/-- The result of a call of `fwrite_unlocked`, and `ferror(fp_)` behind it. -/
structure Fwrite where
  n : ℕ
  error : Bool := false
  deriving DecidableEq

namespace FileUtil

/-- The loop of `append` when `written` bytes are counted and `accepted` were accepted: both numbers
in the end, and whether a failure is reported on `stderr`; `none` unless the results are those of
the calls made. -/
def appendLoop (len : ℕ) : ℕ → ℕ → List Fwrite → Option (ℕ × ℕ × Bool)
  | written, accepted, [] => if written = len then some (written, accepted, false) else none
  | written, accepted, w :: rest =>
    let remain := len - written
    if written = len ∨ remain < w.n then none
    else if w.n ≠ remain then
      -- `break`
      if rest = [] then some (written, accepted + w.n, w.error) else none
    else appendLoop len (written + w.n) (accepted + w.n) rest

/-- `append(data, len)`; of the data what was accepted is in the file. -/
def appendWith (f : FileUtil) (data : Bytes) (now : ℤ) (writes : List Fwrite) :
    Option (FileUtil × Bool) :=
  (appendLoop data.length 0 0 writes).map fun r =>
    ({ f with
        writtenBytes := f.writtenBytes + r.1
        records := f.records ++ [(data.take r.2.1, now)] }, r.2.2)

/-- A call of `append`, with the results of the writes it makes. -/
structure Label where
  data : Bytes
  now : ℤ
  writes : List Fwrite

def step (f : FileUtil) (l : Label) : Option FileUtil :=
  (f.appendWith l.data l.now l.writes).map Prod.fst

/-- No write falls short but those that accept nothing. -/
def Label.FullOrNone (l : Label) : Prop := ∀ w ∈ l.writes, w.n = 0 ∨ w.n = l.data.length

/-! ### One call -/

theorem appendLoop_end {len accepted : ℕ} {writes : List Fwrite} {r : ℕ × ℕ × Bool}
    (h : appendLoop len len accepted writes = some r) :
    writes = [] ∧ r = (len, accepted, false) := by
  cases writes with
  | nil =>
    rw [appendLoop, if_pos rfl] at h
    exact ⟨rfl, (Option.some.inj h).symm⟩
  | cons w rest => simp [appendLoop] at h

/-- The loop makes one call at most. -/
theorem appendLoop_spec {len : ℕ} {writes : List Fwrite} {r : ℕ × ℕ × Bool}
    (h : appendLoop len 0 0 writes = some r) :
    r.1 ≤ r.2.1 ∧ r.2.1 ≤ len ∧ (r.1 = r.2.1 ↔ ∀ w ∈ writes, w.n = 0 ∨ w.n = len) := by
  cases writes with
  | nil =>
    simp only [appendLoop] at h
    split_ifs at h
    cases h
    simp
  | cons w rest =>
    simp only [appendLoop, Nat.sub_zero, Nat.zero_add] at h
    split_ifs at h with hcall hshort hrest
    · cases h
      subst hrest
      refine ⟨Nat.zero_le _, by show w.n ≤ len; omega, fun heq => ?_, fun hw => ?_⟩
      · rintro v hv
        rw [List.mem_singleton.1 hv]
        exact .inl heq.symm
      · exact ((hw w List.mem_cons_self).resolve_right hshort).symm
    · obtain rfl : w.n = len := not_not.1 hshort
      obtain ⟨rfl, rfl⟩ := appendLoop_end h
      simp

/-- What is counted of a call, and what was accepted. -/
theorem appendWith_spec {f g : FileUtil} {l : Label} (h : step f l = some g) :
    ∃ counted accepted : ℕ, g.writtenBytes = f.writtenBytes + counted ∧
      LogFile.total g.records = LogFile.total f.records + accepted ∧ counted ≤ accepted ∧
      (counted = accepted ↔ l.FullOrNone) := by
  obtain ⟨⟨g', e⟩, hg, rfl⟩ := Option.map_eq_some_iff.1 h
  obtain ⟨r, hr, heq⟩ := Option.map_eq_some_iff.1 hg
  obtain ⟨hle, hlen, hiff⟩ := appendLoop_spec hr
  cases heq
  refine ⟨r.1, r.2.1, rfl, ?_, hle, hiff⟩
  rw [LogFile.total_concat]
  simp [List.length_take, Nat.min_eq_left hlen]

/-! ### Every sequence of calls -/

/-- **`writtenBytes()` counts what was accepted**, over every sequence of calls of `append` and all
results of `fwrite_unlocked`, if and only if no short write accepts anything. -/
theorem writtenBytes_exact_iff {opened : ℤ} {ls : List Label} {f : FileUtil}
    (h : run step { opened := opened } ls = some f) :
    f.writtenBytes = LogFile.total f.records ↔ ∀ l ∈ ls, l.FullOrNone := by
  have hcount : f.writtenBytes ≤ LogFile.total f.records ∧
      (f.writtenBytes = LogFile.total f.records ↔ ∀ l ∈ ls, l.FullOrNone) := by
    refine run_induction (P := fun ls (f : FileUtil) =>
      f.writtenBytes ≤ LogFile.total f.records ∧
        (f.writtenBytes = LogFile.total f.records ↔ ∀ l ∈ ls, l.FullOrNone)) ?_ ?_ h
    · exact ⟨le_rfl, iff_of_true rfl (by simp)⟩
    · rintro ms u l v ⟨hle, hiff⟩ hstep
      obtain ⟨counted, accepted, hbytes, htotal, hshort, hfull⟩ := appendWith_spec hstep
      -- what is missing in the count stays missing
      have hsplit : v.writtenBytes = LogFile.total v.records ↔
          u.writtenBytes = LogFile.total u.records ∧ counted = accepted := by omega
      refine ⟨by omega, ?_⟩
      rw [hsplit, hiff, hfull, List.forall_mem_append]
      simp
  exact hcount.2

/-- A full write, one that accepts nothing, and another full one. -/
theorem writtenBytes_exact_zero :
    ∃ f, run step { opened := 7 } [⟨[97, 98], 7, [⟨2, false⟩]⟩, ⟨[99], 7, [⟨0, true⟩]⟩,
        ⟨[100], 8, [⟨1, true⟩]⟩] = some f ∧ f.writtenBytes = LogFile.total f.records := by
  have hrun : run step { opened := 7 } [⟨[97, 98], 7, [⟨2, false⟩]⟩, ⟨[99], 7, [⟨0, true⟩]⟩,
      ⟨[100], 8, [⟨1, true⟩]⟩] = some _ := rfl
  refine ⟨_, hrun, (writtenBytes_exact_iff hrun).2 ?_⟩
  simp [Label.FullOrNone]

/-- Of three bytes two are accepted, and none is counted. -/
theorem short_write_uncounted :
    ∃ f, run step { opened := 7 } [⟨[97, 98, 99], 7, [⟨2, true⟩]⟩] = some f ∧
      LogFile.total f.records = 2 ∧ f.writtenBytes = 0 :=
  ⟨_, rfl, rfl, rfl⟩

end FileUtil

/-! ### `LogFile` over such a file -/

namespace LogFile

/-- A call of `append`, with the results of the writes it makes. -/
structure WriteLabel extends Label where
  writes : List Fwrite

/-- One call, whatever `fwrite_unlocked` returns. -/
def stepWith (s : LogFile) (l : WriteLabel) : Option LogFile :=
  if s.clock ≤ l.now ∧ l.now ≤ l.now' then
    s.file.bind fun f =>
      (f.appendWith l.data l.now l.writes).map fun r =>
        { s.afterAppend r.1 l.now l.now' with clock := l.now' }
  else none

end LogFile

end TinyNetwork
