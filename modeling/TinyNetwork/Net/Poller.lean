import TinyNetwork.Lib.Run
import TinyNetwork.Net.EPollPoller

/-!
# `class Poller` (src/net/Poller.h, src/net/poller/Poller.cpp) and its channels

All channels of one poller, each with its own file descriptor: `channels_`, which maps descriptors
to channels, the `index_` and the `events_` of every channel, and the interest list of the epoll
instance.  The steps are the member functions of `Channel` that call the poller, and a failed
assertion is `none`.

What concerns one channel is a `Registration`, and the poller does to it what `Registration` says
(`part_updateChannel`, `part_removeChannel`); the other channels are left alone.  From this the
bookkeeping follows for all of them (`bookkeeping_agrees`).
-/

namespace TinyNetwork

open Lts

namespace Channel

def disableReading (ch : Channel) : Channel := { ch with reading := false }

end Channel

namespace Poller

/-- The member functions of a channel. -/
inductive Call (ι : Type*)
  | enableReading (c : ι)
  | disableReading (c : ι)
  | enableWriting (c : ι)
  | disableWriting (c : ι)
  | disableAll (c : ι)
  | remove (c : ι)

end Poller

/-- The poller, its channels and the kernel; `failed` counts the failed calls of `epoll_ctl`. -/
structure Poller (ι : Type*) where
  channels : ℤ → Option ι := fun _ => none
  index : ι → ChannelIndex := fun _ => .kNew
  events : ι → Channel := fun _ => {}
  interest : ℤ → Interest := fun _ => none
  failed : ι → ℕ := fun _ => 0

namespace Poller

variable {ι : Type*} [DecidableEq ι] (fd : ι → ℤ)

def new : Poller ι := {}

/-- `hasChannel(channel)`. -/
def hasChannel (s : Poller ι) (c : ι) : Bool := decide (s.channels (fd c) = some c)

def setIndex (s : Poller ι) (c : ι) (index : ChannelIndex) : Poller ι :=
  { s with index := Function.update s.index c index }

/-- `EPollPoller::update`. -/
def update (s : Poller ι) (op : EpollOp) (c : ι) : Poller ι :=
  match epollCtl op (s.events c) (s.interest (fd c)) with
  | some interest => { s with interest := Function.update s.interest (fd c) interest }
  | none => { s with failed := Function.update s.failed c (s.failed c + 1) }

/-- `updateChannel(channel)`; `none` when an assertion on `channels_` fails. -/
def updateChannel (s : Poller ι) (c : ι) : Option (Poller ι) :=
  match s.index c with
  | .kNew =>
    some (({ s with channels := Function.update s.channels (fd c) (some c) }.setIndex c .kAdded).update
      fd .EPOLL_CTL_ADD c)
  | .kDeleted =>
    if s.channels (fd c) = some c then some ((s.setIndex c .kAdded).update fd .EPOLL_CTL_ADD c)
    else none
  | .kAdded =>
    some (if (s.events c).isNoneEvent then (s.update fd .EPOLL_CTL_DEL c).setIndex c .kDeleted
      else s.update fd .EPOLL_CTL_MOD c)

/-- `removeChannel(channel)`. -/
def removeChannel (s : Poller ι) (c : ι) : Poller ι :=
  let s := { s with channels := Function.update s.channels (fd c) none }
  let s := if s.index c = .kAdded then s.update fd .EPOLL_CTL_DEL c else s
  s.setIndex c .kNew

/-- A channel changes its events and tells the poller. -/
def setEvents (s : Poller ι) (c : ι) (events : Channel) : Option (Poller ι) :=
  { s with events := Function.update s.events c events }.updateChannel fd c

def step (s : Poller ι) : Call ι → Option (Poller ι)
  | .enableReading c => s.setEvents fd c (s.events c).enableReading
  | .disableReading c => s.setEvents fd c (s.events c).disableReading
  | .enableWriting c => s.setEvents fd c (s.events c).enableWriting
  | .disableWriting c => s.setEvents fd c (s.events c).disableWriting
  | .disableAll c => s.setEvents fd c (s.events c).disableAll
  | .remove c => if (s.events c).isNoneEvent then some (s.removeChannel fd c) else none

/-- `remove` is called on channels without events. -/
def RemovesIdle (s : Poller ι) : Call ι → Prop
  | .remove c => (s.events c).isNoneEvent = true
  | _ => True

instance (s : Poller ι) (l : Call ι) : Decidable (s.RemovesIdle l) :=
  match l with
  | .remove c => inferInstanceAs (Decidable ((s.events c).isNoneEvent = true))
  | .enableReading _ | .disableReading _ | .enableWriting _ | .disableWriting _ | .disableAll _ =>
    isTrue trivial

/-! ### One channel at a time -/

/-- What the poller and the kernel know of one channel. -/
def part (s : Poller ι) (c : ι) : Registration where
  index := s.index c
  inChannels := s.hasChannel fd c
  interest := s.interest (fd c)
  failed := s.failed c

theorem part_setIndex (s : Poller ι) (c : ι) (index : ChannelIndex) :
    (s.setIndex c index).part fd c = { s.part fd c with index := index } := by
  have hindex : (s.setIndex c index).index c = index := Function.update_self _ _ _
  unfold part
  rw [hindex]
  rfl

theorem part_update (s : Poller ι) (op : EpollOp) (c : ι) :
    (s.update fd op c).part fd c = (s.part fd c).update op (s.events c) := by
  unfold update Registration.update
  cases hctl : epollCtl op (s.events c) (s.interest (fd c)) with
  | none => simp [part, hasChannel, hctl]
  | some interest => simp [part, hasChannel, hctl]

theorem update_events (s : Poller ι) (op : EpollOp) (c : ι) :
    (s.update fd op c).events = s.events := by
  unfold update
  split <;> rfl

/-- The poller does to the part of a channel what `Registration.updateChannel` says. -/
theorem part_updateChannel (s : Poller ι) (c : ι) :
    (s.updateChannel fd c).map (part fd · c) = (s.part fd c).updateChannel (s.events c) := by
  unfold updateChannel Registration.updateChannel
  have hpart : (s.part fd c).index = s.index c := rfl
  rw [hpart]
  cases s.index c with
  | kNew =>
    rw [Option.map_some, part_update, part_setIndex]
    simp [part, hasChannel, setIndex]
  | kDeleted =>
    have hin : (s.part fd c).inChannels = true ↔ s.channels (fd c) = some c := by
      simp [part, hasChannel]
    simp only [hin]
    split_ifs
    · rw [Option.map_some, part_update, part_setIndex]
      rfl
    · rfl
  | kAdded =>
    dsimp only
    rw [Option.map_some]
    split_ifs
    · rw [part_setIndex, part_update]
    · rw [part_update]

theorem part_removeChannel (s : Poller ι) (c : ι) :
    (s.removeChannel fd c).part fd c = (s.part fd c).removeChannel (s.events c) := by
  unfold removeChannel Registration.removeChannel
  have hclear : part fd { s with channels := Function.update s.channels (fd c) none } c =
      { s.part fd c with inChannels := false } := by
    simp [part, hasChannel]
  simp only [part_setIndex]
  split_ifs with hindex hpart hpart
  · rw [part_update, hclear]
  · exact absurd hindex hpart
  · exact absurd hpart hindex
  · rw [hclear]

/-! ### The other channels -/

/-- From `s` to `t` nothing changed that concerns the channel `d`. -/
structure SameAt (s t : Poller ι) (d : ι) : Prop where
  channels : t.channels (fd d) = s.channels (fd d)
  index : t.index d = s.index d
  events : t.events d = s.events d
  interest : t.interest (fd d) = s.interest (fd d)
  failed : t.failed d = s.failed d

variable {fd}

omit [DecidableEq ι] in
theorem SameAt.trans {s t u : Poller ι} {d : ι} (h : SameAt fd s t d) (h' : SameAt fd t u d) :
    SameAt fd s u d where
  channels := h'.channels.trans h.channels
  index := h'.index.trans h.index
  events := h'.events.trans h.events
  interest := h'.interest.trans h.interest
  failed := h'.failed.trans h.failed

theorem sameAt_setIndex (s : Poller ι) {c d : ι} (hne : d ≠ c) (index : ChannelIndex) :
    SameAt fd s (s.setIndex c index) d :=
  ⟨rfl, Function.update_of_ne hne _ _, rfl, rfl, rfl⟩

omit [DecidableEq ι] in
theorem sameAt_channels (hfd : Function.Injective fd) (s : Poller ι) {c d : ι} (hne : d ≠ c)
    (channel : Option ι) :
    SameAt fd s { s with channels := Function.update s.channels (fd c) channel } d :=
  ⟨Function.update_of_ne (hfd.ne hne) _ _, rfl, rfl, rfl, rfl⟩

theorem sameAt_update (hfd : Function.Injective fd) (s : Poller ι) {c d : ι} (hne : d ≠ c)
    (op : EpollOp) : SameAt fd s (s.update fd op c) d := by
  unfold update
  split
  · exact ⟨rfl, rfl, rfl, Function.update_of_ne (hfd.ne hne) _ _, rfl⟩
  · exact ⟨rfl, rfl, rfl, rfl, Function.update_of_ne hne _ _⟩

theorem sameAt_updateChannel (hfd : Function.Injective fd) {s t : Poller ι} {c d : ι} (hne : d ≠ c)
    (h : s.updateChannel fd c = some t) : SameAt fd s t d := by
  unfold updateChannel at h
  split at h
  · cases h
    exact ((sameAt_channels hfd s hne _).trans (sameAt_setIndex _ hne _)).trans
      (sameAt_update hfd _ hne _)
  · split_ifs at h
    cases h
    exact (sameAt_setIndex s hne _).trans (sameAt_update hfd _ hne _)
  · cases h
    split_ifs
    · exact (sameAt_update hfd s hne _).trans (sameAt_setIndex _ hne _)
    · exact sameAt_update hfd s hne _

theorem sameAt_setEvents (hfd : Function.Injective fd) {s t : Poller ι} {c d : ι} (hne : d ≠ c)
    {events : Channel} (h : s.setEvents fd c events = some t) : SameAt fd s t d := by
  have hsame : SameAt fd s { s with events := Function.update s.events c events } d :=
    ⟨rfl, rfl, Function.update_of_ne hne _ _, rfl, rfl⟩
  exact hsame.trans (sameAt_updateChannel hfd hne h)

theorem sameAt_removeChannel (hfd : Function.Injective fd) (s : Poller ι) {c d : ι} (hne : d ≠ c) :
    SameAt fd s (s.removeChannel fd c) d := by
  unfold removeChannel
  have hclear := sameAt_channels hfd s hne none
  dsimp only
  split_ifs
  · exact (hclear.trans (sameAt_update hfd _ hne _)).trans (sameAt_setIndex _ hne _)
  · exact hclear.trans (sameAt_setIndex _ hne _)

theorem updateChannel_events {s t : Poller ι} {c : ι} (h : s.updateChannel fd c = some t) :
    t.events = s.events := by
  unfold updateChannel at h
  split at h
  · cases h
    rw [update_events]
    rfl
  · split_ifs at h
    cases h
    rw [update_events]
    rfl
  · cases h
    split_ifs
    · exact update_events fd s _ c
    · exact update_events fd s _ c

/-! ### The bookkeeping -/

/-- `channels_`, `index_`, `events_` and the interest list agree on a channel. -/
structure Agrees (fd : ι → ℤ) (s : Poller ι) (c : ι) : Prop where
  failed : s.failed c = 0
  channels : s.channels (fd c) = none ∨ s.channels (fd c) = some c
  part : (s.part fd c).WellFormed
  events : ∀ events ∈ s.interest (fd c), events = s.events c

theorem agrees_new (c : ι) : Agrees fd new c :=
  ⟨rfl, .inl rfl, ⟨by simp [Poller.part, new, hasChannel], by simp [Poller.part, new]⟩, by simp [new]⟩

theorem Agrees.of_sameAt {s t : Poller ι} {d : ι} (hs : Agrees fd s d) (h : SameAt fd s t d) :
    Agrees fd t d := by
  have hpart : t.part fd d = s.part fd d := by
    unfold Poller.part hasChannel
    rw [h.channels, h.index, h.interest, h.failed]
  refine ⟨h.failed.trans hs.failed, ?_, hpart ▸ hs.part, ?_⟩
  · rw [h.channels]
    exact hs.channels
  · rw [h.interest, h.events]
    exact hs.events

theorem channels_of_part {s : Poller ι} {c : ι} (h : (s.part fd c).inChannels = true) :
    s.channels (fd c) = some c :=
  of_decide_eq_true h

/-- A channel that changes its events is registered with the new ones; no call fails. -/
theorem Agrees.setEvents {s : Poller ι} {c : ι} (hs : Agrees fd s c) (events : Channel) :
    ∃ t, s.setEvents fd c events = some t ∧ Agrees fd t c := by
  set u : Poller ι := { s with events := Function.update s.events c events } with hu
  have hevents : u.events c = events := Function.update_self _ _ _
  have hpart := part_updateChannel fd u c
  rw [hevents] at hpart
  have hwf : (u.part fd c).WellFormed := hs.part
  obtain ⟨r, hr, hrwf, -⟩ := hwf.updateChannel events
  rw [hr] at hpart
  obtain ⟨t, ht, htpart⟩ := Option.map_eq_some_iff.1 hpart
  refine ⟨t, ht, ?_⟩
  have htevents : t.events c = events := (congrFun (updateChannel_events ht) c).trans hevents
  by_cases hadded : (u.part fd c).index = .kAdded
  · rw [Registration.updateChannel_of_eq hwf hadded] at hr
    cases hr
    have hin : (t.part fd c).inChannels = true := by
      rw [htpart]
      have hold : (u.part fd c).inChannels = true := hwf.inChannels.2 (by rw [hadded]; decide)
      split_ifs <;> exact hold
    refine ⟨?_, .inr (channels_of_part hin), htpart ▸ hrwf, fun ev hev => ?_⟩
    · have hfailed := congrArg Registration.failed htpart
      split_ifs at hfailed <;> exact hfailed.trans hs.failed
    · have hinterest := congrArg Registration.interest htpart
      have hev' : (t.part fd c).interest = some ev := hev
      rw [hinterest] at hev'
      rw [htevents]
      split_ifs at hev'
      cases hev'
      rfl
  · rw [Registration.updateChannel_of_ne hwf hadded] at hr
    cases hr
    refine ⟨?_, .inr (channels_of_part (by rw [htpart])), htpart ▸ hrwf, fun ev hev => ?_⟩
    · exact (congrArg Registration.failed htpart).trans hs.failed
    · have hev' : (t.part fd c).interest = some ev := hev
      rw [htpart] at hev'
      cases hev'
      exact htevents.symm

theorem Agrees.removeChannel {s : Poller ι} {c : ι} (hs : Agrees fd s c) :
    Agrees fd (s.removeChannel fd c) c := by
  have hpart := part_removeChannel fd s c
  rw [hs.part.removeChannel] at hpart
  have hinterest : (s.removeChannel fd c).interest (fd c) = none :=
    congrArg Registration.interest hpart
  refine ⟨(congrArg Registration.failed hpart).trans hs.failed, .inl ?_, ?_, ?_⟩
  · unfold Poller.removeChannel
    dsimp only
    split_ifs
    · have hupdate : ∀ (u : Poller ι) op, (u.update fd op c).channels = u.channels := by
        intro u op
        unfold update
        split <;> rfl
      simp only [setIndex, hupdate, Function.update_self]
    · exact Function.update_self _ _ _
  · rw [hpart]
    exact ⟨by simp, by simp⟩
  · rw [hinterest]
    simp

theorem agrees_setEvents (hfd : Function.Injective fd) {s : Poller ι} (hs : ∀ d, Agrees fd s d)
    (c : ι) (events : Channel) :
    ∃ t, s.setEvents fd c events = some t ∧ ∀ d, Agrees fd t d := by
  obtain ⟨t, ht, hagrees⟩ := (hs c).setEvents events
  refine ⟨t, ht, fun d => ?_⟩
  by_cases hd : d = c
  · exact hd ▸ hagrees
  · exact (hs d).of_sameAt (sameAt_setEvents hfd hd ht)

/-- No assertion fails in a step, and the bookkeeping agrees again. -/
theorem agrees_step (hfd : Function.Injective fd) {s : Poller ι} (hs : ∀ d, Agrees fd s d)
    {l : Call ι} (hl : s.RemovesIdle l) : ∃ t, step fd s l = some t ∧ ∀ d, Agrees fd t d := by
  cases l with
  | enableReading c => exact agrees_setEvents hfd hs c _
  | disableReading c => exact agrees_setEvents hfd hs c _
  | enableWriting c => exact agrees_setEvents hfd hs c _
  | disableWriting c => exact agrees_setEvents hfd hs c _
  | disableAll c => exact agrees_setEvents hfd hs c _
  | remove c =>
    refine ⟨s.removeChannel fd c, if_pos hl, fun d => ?_⟩
    by_cases hd : d = c
    · exact hd ▸ (hs c).removeChannel
    · exact (hs d).of_sameAt (sameAt_removeChannel hfd s hd)

theorem agrees_run (hfd : Function.Injective fd) {s : Poller ι} (hs : ∀ d, Agrees fd s d)
    {ls : List (Call ι)} (hls : Along (step fd) RemovesIdle s ls) :
    ∃ t, run (step fd) s ls = some t ∧ ∀ d, Agrees fd t d := by
  induction ls generalizing s with
  | nil => exact ⟨s, rfl, hs⟩
  | cons l ls ih =>
    obtain ⟨t, ht, hagrees⟩ := agrees_step hfd hs hls.1
    obtain ⟨u, hu, hend⟩ := ih hagrees (hls.2 t ht)
    exact ⟨u, run_cons_eq_some.2 ⟨t, ht, hu⟩, hend⟩

/-- **The bookkeeping agrees with the kernel.**  However the channels of a poller enable and disable
events and are removed while they have none, no assertion and no call of `epoll_ctl` fails, and the
`index_` of every channel says whether `channels_` and the interest list hold it, the latter with
the events of the channel. -/
theorem bookkeeping_agrees (hfd : Function.Injective fd) {ls : List (Call ι)}
    (hls : Along (step fd) RemovesIdle new ls) :
    ∃ s, run (step fd) new ls = some s ∧ ∀ c,
      s.failed c = 0 ∧
      (s.index c = .kNew ↔ s.channels (fd c) = none) ∧
      (s.index c = .kAdded ↔ (s.interest (fd c)).isSome = true) ∧
      (∀ events ∈ s.interest (fd c), events = s.events c) ∧
      (s.hasChannel fd c = true ↔ s.index c ≠ .kNew) := by
  obtain ⟨s, hs, hagrees⟩ := agrees_run hfd (fun d => agrees_new d) hls
  refine ⟨s, hs, fun c => ?_⟩
  have hc := hagrees c
  have hhas : s.hasChannel fd c = true ↔ s.index c ≠ .kNew := hc.part.inChannels
  refine ⟨hc.failed, ?_, hc.part.interest.symm, hc.events, hhas⟩
  have hnot : s.index c = .kNew ↔ ¬ s.channels (fd c) = some c := by
    rw [← not_iff_not, not_not, ← ne_eq, ← hhas]
    exact decide_eq_true_iff
  rw [hnot]
  rcases hc.channels with hnone | hsome
  · simp [hnone]
  · simp [hsome]

/-- Two channels: one is disabled until it is deleted and added again, the other is removed and used
again. -/
def reuse : List (Call Bool) :=
  [.enableReading true, .enableWriting false, .disableAll true, .disableAll true,
    .disableAll true, .enableWriting true, .disableWriting false, .remove false,
    .enableReading false]

def twoFds (b : Bool) : ℤ := if b then 5 else 7

theorem bookkeeping_agrees_reused :
    ∃ s, run (step twoFds) new reuse = some s ∧ s.index true = .kAdded ∧
      s.interest 7 = some ⟨true, false⟩ ∧
      (s.hasChannel twoFds false = true ↔ s.index false ≠ .kNew) := by
  have hfd : Function.Injective twoFds := by decide
  have hls : Along (step twoFds) RemovesIdle new reuse := by decide
  obtain ⟨s, hs, hagrees⟩ := bookkeeping_agrees hfd hls
  cases hs
  exact ⟨_, rfl, rfl, rfl, (hagrees false).2.2.2.2⟩

end Poller

end TinyNetwork
