import TinyNetwork.Lib.Run
import TinyNetwork.Base.Integers
import Mathlib.Data.List.Basic
import Mathlib.Data.UInt
import Mathlib.Logic.Function.Basic

/-!
# `EPollPoller::poll` (src/net/poller/EPollPoller.h, src/net/poller/EpollPoller.cpp)

`poll` keeps the `int` that `epoll_wait` returns in a `size_t`.  A failure, -1, becomes the greatest
`size_t`, so the branch that reports it is never taken; the number is cut down to -1 again for
`fillActiveChannels`, which then does nothing.

`poll_faithful_iff`: apart from such failures every call delivers what the kernel has reported,
over runs in which the array of events keeps growing.
-/

namespace TinyNetwork

open Lts

/-- `epoll_event`; `data.ptr` is a channel or null. -/
structure EpollEvent (ι : Type*) where
  events : UInt32 := 0
  ptr : Option ι := none

/-- The array of events, and `revents_` of the channels. -/
structure EPollPoller (ι : Type*) where
  events : List (EpollEvent ι)
  revents : ι → ℤ := fun _ => 0

namespace EPollPoller

def kInitEventListSize : ℕ := 16

def EINTR : ℤ := 4

/-- A ready descriptor, with the channel it was registered with. -/
structure Ready (ι : Type*) where
  events : UInt32
  channel : ι

/-- What `epoll_wait` does. -/
inductive EpollWait (ι : Type*)
  | failed
  | ready (entries : List (Ready ι))

/-- A call of `poll`: what `epoll_wait` does, `errno` behind it, and the list to append to. -/
structure Label (ι : Type*) where
  result : EpollWait ι
  errno : ℤ
  activeChannels : List ι := []

inductive LogLine
  | happened (numEvents : ℕ)
  | nothing
  | error
  deriving DecidableEq

/-- What `fillActiveChannels` writes to. -/
structure Filled (ι : Type*) where
  revents : ι → ℤ
  activeChannels : List ι

/-- What a call of `poll` leaves. -/
structure Polled (ι : Type*) where
  poller : EPollPoller ι
  activeChannels : List ι
  log : List LogLine

variable {ι : Type*}

namespace EpollWait

def entries : EpollWait ι → List (Ready ι)
  | failed => []
  | ready entries => entries

def returned : EpollWait ι → ℤ
  | failed => -1
  | ready entries => entries.length

/-- The array behind the call. -/
def stored (w : EpollWait ι) (events : List (EpollEvent ι)) : List (EpollEvent ι) :=
  w.entries.map (fun e => ⟨e.events, some e.channel⟩) ++ events.drop w.entries.length

end EpollWait

/-- The constructor. -/
def construct : EPollPoller ι where
  events := List.replicate kInitEventListSize ({} : EpollEvent ι)

/-- `events_.resize(n)`. -/
def resize (events : List (EpollEvent ι)) (n : ℕ) : List (EpollEvent ι) :=
  events.take n ++ List.replicate (n - events.length) ({} : EpollEvent ι)

theorem length_stored {w : EpollWait ι} {events : List (EpollEvent ι)}
    (h : w.entries.length ≤ events.length) : (w.stored events).length = events.length := by
  rw [EpollWait.stored, List.length_append, List.length_map, List.length_drop]
  omega

theorem length_resize_double {events : List (EpollEvent ι)} {n : ℕ} (hn : events.length = n)
    (h : n < 2 ^ 32) : (resize events (toSizeT (n * 2))).length = 2 * n := by
  have hsize : toSizeT (n * 2) = 2 * n := by
    rw [toSizeT_of_nonneg (by omega) (by omega)]
    omega
  rw [resize, hsize, List.length_append, List.length_take, List.length_replicate, hn]
  omega

/-- The array never gets so large that doubling it would wrap. -/
def Sized (s : EPollPoller ι) : Prop := 0 < s.events.length ∧ s.events.length < 2 ^ 32

theorem sized_construct : Sized (construct : EPollPoller ι) := by
  rw [Sized, construct, List.length_replicate]
  decide

variable [DecidableEq ι]

/-- One iteration of the loop of `fillActiveChannels`, on a channel with these events. -/
def Filled.push (s : Filled ι) (channel : ι) (events : UInt32) : Filled ι where
  revents := Function.update s.revents channel (toInt events.toNat)
  activeChannels := s.activeChannels ++ [channel]

/-- The loop from `i` on, for a number of iterations; `none` when it leaves the array or follows a
null pointer. -/
def fillFrom (events : List (EpollEvent ι)) : ℕ → ℕ → Filled ι → Option (Filled ι)
  | _, 0, s => some s
  | i, n + 1, s =>
    match events[i]? with
    | some ⟨bits, some channel⟩ => fillFrom events (i + 1) n (s.push channel bits)
    | _ => none

def fillActiveChannels (events : List (EpollEvent ι)) (numEvents : ℤ) (s : Filled ι) :
    Option (Filled ι) :=
  fillFrom events 0 numEvents.toNat s

def poll (s : EPollPoller ι) (l : Label ι) : Option (Polled ι) :=
  let events := l.result.stored s.events
  let numEvents := toSizeT l.result.returned
  if 0 < numEvents then
    (fillActiveChannels events (toInt numEvents) ⟨s.revents, l.activeChannels⟩).map fun f =>
      let events :=
        if numEvents = events.length then resize events (toSizeT (events.length * 2)) else events
      ⟨⟨events, f.revents⟩, f.activeChannels, [.happened numEvents]⟩
  else if numEvents = 0 then
    some ⟨⟨events, s.revents⟩, l.activeChannels, [.nothing]⟩
  else
    some ⟨⟨events, s.revents⟩, l.activeChannels, if l.errno ≠ EINTR then [.error] else []⟩

def step (s : EPollPoller ι) (l : Label ι) : Option (EPollPoller ι) := (s.poll l).map Polled.poller

/-- The kernel reports no more than there is room for, in an `int`. -/
def Fits (s : EPollPoller ι) (l : Label ι) : Prop :=
  l.result.entries.length ≤ s.events.length ∧ l.result.entries.length < 2 ^ 31

instance (s : EPollPoller ι) (l : Label ι) : Decidable (s.Fits l) :=
  inferInstanceAs (Decidable (_ ∧ _))

/-- A call delivers what was reported: the channels in order, with their events (the last ones of a
channel that comes twice) and no others, and the failures but those by a signal.  The array is
doubled if it was filled. -/
structure Delivers (s : EPollPoller ι) (l : Label ι) (r : Polled ι) : Prop where
  active : r.activeChannels = l.activeChannels ++ l.result.entries.map Ready.channel
  revents : ∀ pre e post, l.result.entries = pre ++ e :: post →
    e.channel ∉ post.map Ready.channel → r.poller.revents e.channel = toInt e.events.toNat
  others : ∀ c, c ∉ l.result.entries.map Ready.channel → r.poller.revents c = s.revents c
  reported : .error ∈ r.log ↔ l.result.returned = -1 ∧ l.errno ≠ EINTR
  doubled : l.result.returned = s.events.length →
    r.poller.events.length = 2 * s.events.length
  kept : l.result.returned ≠ s.events.length → r.poller.events.length = s.events.length

def PollsFaithfully (s : EPollPoller ι) (l : Label ι) : Prop :=
  ∃ r, s.poll l = some r ∧ Delivers s l r

/-! ### The loop -/

theorem push_self (s : Filled ι) (c : ι) (bits : UInt32) :
    (s.push c bits).revents c = toInt bits.toNat := Function.update_self _ _ _

theorem push_of_ne (s : Filled ι) {c d : ι} (h : d ≠ c) (bits : UInt32) :
    (s.push c bits).revents d = s.revents d := Function.update_of_ne h _ _

/-- Push all entries. -/
def Filled.pushAll (s : Filled ι) (entries : List (Ready ι)) : Filled ι :=
  entries.foldl (fun s e => s.push e.channel e.events) s

theorem fillFrom_eq (entries : List (Ready ι)) (pre rest : List (EpollEvent ι)) (s : Filled ι) :
    fillFrom (pre ++ (entries.map (fun e => ⟨e.events, some e.channel⟩) ++ rest)) pre.length
        entries.length s = some (s.pushAll entries) := by
  induction entries generalizing pre s with
  | nil => rfl
  | cons e entries ih =>
    have hnext := ih (pre ++ [⟨e.events, some e.channel⟩]) (s.push e.channel e.events)
    rw [List.length_append, List.append_assoc] at hnext
    rw [List.length_cons, fillFrom, List.getElem?_append_right le_rfl, Nat.sub_self]
    exact hnext

theorem activeChannels_pushAll (entries : List (Ready ι)) (s : Filled ι) :
    (s.pushAll entries).activeChannels = s.activeChannels ++ entries.map Ready.channel := by
  induction entries generalizing s with
  | nil => exact (List.append_nil _).symm
  | cons e entries ih =>
    have hnext := ih (s.push e.channel e.events)
    rw [Filled.push, List.append_assoc] at hnext
    exact hnext

theorem revents_pushAll_of_notMem {entries : List (Ready ι)} {c : ι}
    (h : c ∉ entries.map Ready.channel) (s : Filled ι) :
    (s.pushAll entries).revents c = s.revents c := by
  induction entries generalizing s with
  | nil => rfl
  | cons e entries ih =>
    rw [List.map_cons, List.mem_cons, not_or] at h
    exact (ih h.2 (s.push e.channel e.events)).trans (push_of_ne s h.1 e.events)

/-- A channel has the events of its last entry. -/
theorem revents_pushAll {pre post : List (Ready ι)} {e : Ready ι}
    (h : e.channel ∉ post.map Ready.channel) (s : Filled ι) :
    (s.pushAll (pre ++ e :: post)).revents e.channel = toInt e.events.toNat := by
  have hpost := revents_pushAll_of_notMem h ((s.pushAll pre).push e.channel e.events)
  rw [push_self] at hpost
  rw [Filled.pushAll, List.foldl_append]
  exact hpost

/-! ### One call -/

/-- A failure is taken for a number of events, and nothing is done about it. -/
theorem poll_failed {s : EPollPoller ι} (hs : s.Sized) {l : Label ι} (h : l.result = .failed) :
    s.poll l = some ⟨s, l.activeChannels, [.happened (2 ^ 64 - 1)]⟩ := by
  have hnumber : toSizeT (-1) = 2 ^ 64 - 1 := by decide
  have hback : (toInt ((2 ^ 64 - 1 : ℕ) : ℤ)).toNat = 0 := by decide
  have hsize : 2 ^ 64 - 1 ≠ s.events.length := by
    have hlt := hs.2
    omega
  have hevents : EpollWait.failed.stored s.events = s.events := rfl
  unfold poll
  simp only [h, EpollWait.returned, hnumber, hevents, fillActiveChannels, hback, fillFrom,
    Option.map_some, if_neg hsize]
  rfl

theorem poll_ready {s : EPollPoller ι} (hs : s.Sized) {l : Label ι} (hfits : s.Fits l)
    {entries : List (Ready ι)} (h : l.result = .ready entries) :
    ∃ r, s.poll l = some r ∧ .error ∉ r.log ∧
      r.activeChannels = l.activeChannels ++ entries.map Ready.channel ∧
      r.poller.revents = (Filled.pushAll ⟨s.revents, l.activeChannels⟩ entries).revents ∧
      r.poller.events.length =
        if entries.length = s.events.length then 2 * s.events.length else s.events.length := by
  obtain ⟨hroom, hint⟩ := hfits
  rw [h] at hroom hint
  simp only [EpollWait.entries] at hroom hint
  have hnumber : toSizeT (entries.length : ℤ) = entries.length := by
    rw [toSizeT_of_nonneg (by omega) (by omega)]
    omega
  have hback : toInt (entries.length : ℤ) = entries.length := toInt_of_fits (by omega) (by omega)
  have hstored : ((EpollWait.ready entries).stored s.events).length = s.events.length :=
    length_stored hroom
  have hfilled : fillActiveChannels ((EpollWait.ready entries).stored s.events) entries.length
      ⟨s.revents, l.activeChannels⟩ =
        some (Filled.pushAll ⟨s.revents, l.activeChannels⟩ entries) := by
    rw [fillActiveChannels, Int.toNat_natCast]
    exact fillFrom_eq entries [] _ _
  unfold poll
  simp only [h, EpollWait.returned, hnumber, hback, hfilled, Option.map_some]
  by_cases hnil : entries.length = 0
  · obtain rfl := List.length_eq_zero_iff.1 hnil
    have hne : ([] : List (Ready ι)).length ≠ s.events.length := hs.1.ne
    rw [if_neg hne]
    exact ⟨_, rfl, by simp, (List.append_nil _).symm, rfl, hstored⟩
  · rw [if_pos (Nat.pos_of_ne_zero hnil)]
    refine ⟨_, rfl, by simp, activeChannels_pushAll entries _, rfl, ?_⟩
    rw [hstored]
    split_ifs with hfull
    · exact length_resize_double hstored hs.2
    · exact hstored

/-- Every call gets through, and what it reports on is right apart from the failures. -/
theorem poll_spec {s : EPollPoller ι} (hs : s.Sized) {l : Label ι} (hfits : s.Fits l) :
    ∃ r, s.poll l = some r ∧ .error ∉ r.log ∧
      r.activeChannels = l.activeChannels ++ l.result.entries.map Ready.channel ∧
      r.poller.revents = (Filled.pushAll ⟨s.revents, l.activeChannels⟩ l.result.entries).revents ∧
      r.poller.events.length =
        if l.result.returned = s.events.length then 2 * s.events.length else s.events.length := by
  cases hresult : l.result with
  | failed =>
    refine ⟨_, poll_failed hs hresult, by simp, (List.append_nil _).symm, rfl, ?_⟩
    have hne : ¬ (-1 : ℤ) = s.events.length := by omega
    exact (if_neg hne).symm
  | ready entries =>
    obtain ⟨r, hr, hlog, hactive, hrevents, hlength⟩ := poll_ready hs hfits hresult
    refine ⟨r, hr, hlog, hactive, hrevents, ?_⟩
    rw [hlength]
    simp only [EpollWait.returned, Nat.cast_inj]

/-- **One call** delivers what was reported unless that is a failure not by a signal. -/
theorem pollsFaithfully_iff {s : EPollPoller ι} (hs : s.Sized) {l : Label ι} (hfits : s.Fits l) :
    PollsFaithfully s l ↔ (l.result.returned = -1 → l.errno = EINTR) := by
  obtain ⟨r, hr, hlog, hactive, hrevents, hlength⟩ := poll_spec hs hfits
  constructor
  · rintro ⟨r', hr', hdelivers⟩ hfailed
    obtain rfl : r = r' := Option.some.inj (hr.symm.trans hr')
    by_contra herrno
    exact hlog (hdelivers.reported.2 ⟨hfailed, herrno⟩)
  · intro h
    refine ⟨r, hr, hactive, fun pre e post hsplit hpost => ?_, fun c hc => ?_, ?_, fun hfull => ?_,
      fun hroom => ?_⟩
    · rw [hrevents, hsplit]
      exact revents_pushAll hpost _
    · rw [hrevents]
      exact revents_pushAll_of_notMem hc _
    · exact iff_of_false hlog fun hfailed => hfailed.2 (h hfailed.1)
    · rw [hlength, if_pos hfull]
    · rw [hlength, if_neg hroom]

theorem sized_step {s : EPollPoller ι} (hs : s.Sized) {l : Label ι} (hfits : s.Fits l) :
    ∃ t, step s l = some t ∧ t.Sized := by
  obtain ⟨r, hr, -, -, -, hlength⟩ := poll_spec hs hfits
  refine ⟨r.poller, Option.map_eq_some_iff.2 ⟨r, hr, rfl⟩, ?_⟩
  obtain ⟨hpos, hlt⟩ := hs
  rw [Sized, hlength]
  split_ifs with hfull
  · -- a result of `epoll_wait` is an `int`, so no larger array is ever filled
    have hint := hfits.2
    have hcount : l.result.returned ≤ l.result.entries.length := by
      cases l.result with
      | failed => exact (by decide : (-1 : ℤ) ≤ 0)
      | ready entries => exact le_rfl
    omega
  · exact ⟨hpos, hlt⟩

/-! ### Every sequence of calls -/

/-- **`poll` delivers what the kernel reports**, over every sequence of calls and of results of
`epoll_wait`: every call appends the channels reported and sets their events, reports the failures
not by a signal, and doubles the array if it was filled, if and only if there is no such failure. -/
theorem poll_faithful_iff {ls : List (Label ι)} (h : Along step Fits construct ls) :
    Along step PollsFaithfully construct ls ↔
      ∀ l ∈ ls, l.result.returned = -1 → l.errno = EINTR := by
  have hrun : ∀ {s : EPollPoller ι}, s.Sized → Along step Fits s ls →
      (Along step PollsFaithfully s ls ↔ ∀ l ∈ ls, l.result.returned = -1 → l.errno = EINTR) := by
    clear h
    induction ls with
    | nil => exact fun _ _ => iff_of_true trivial (by simp)
    | cons l ls ih =>
      rintro s hs ⟨hfits, hnext⟩
      obtain ⟨t, ht, hsized⟩ := sized_step hs hfits
      rw [along_cons_of_step ht, pollsFaithfully_iff hs hfits, ih hsized (hnext t ht),
        List.forall_mem_cons]
  exact hrun sized_construct h

/-- Sixteen ready descriptors fill the array, a signal comes, and then one more is ready. -/
theorem poll_faithful_full :
    Along step PollsFaithfully (construct : EPollPoller ℕ)
      [⟨.ready ((List.range 16).map fun c => ⟨1, c⟩), 0, []⟩, ⟨.failed, EINTR, []⟩,
        ⟨.ready [⟨5, 3⟩], EINTR, []⟩] := by
  refine (poll_faithful_iff ?_).2 (by decide)
  decide

/-- A failure of another kind is not reported. -/
theorem failure_unreported :
    ¬ PollsFaithfully (construct : EPollPoller ℕ) ⟨.failed, 9, []⟩ := by
  rw [pollsFaithfully_iff sized_construct ⟨Nat.zero_le _, by decide⟩]
  decide

end EPollPoller

end TinyNetwork
