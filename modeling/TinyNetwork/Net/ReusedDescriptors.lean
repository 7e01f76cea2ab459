import TinyNetwork.Net.IdleChannels

/-!
# Descriptors that are used again

The kernel gives a descriptor that was closed to the next socket, so that two channels of a poller
may have the same one (src/net/poller/EpollPoller.cpp).  `channels_` has one entry for both:
`updateChannel` of a new channel overwrites it, and `removeChannel` erases it whoever has it.  No
descriptor is closed here while it is in the interest list; that the connections of a server keep to
this is shown in `Descriptors`.

`consistent_iff`: the bookkeeping is consistent in every state of a run if and only if no channel
calls the poller while another one has the entry of its descriptor (`Undisputed`).
-/

namespace TinyNetwork

open Lts

namespace Poller

variable {ι : Type*} [DecidableEq ι] {fd : ι → ℤ} {s t : Poller ι} {c d : ι}

/-- The channel that makes a call. -/
def Call.channel : Call ι → ι
  | .enableReading c => c
  | .disableReading c => c
  | .enableWriting c => c
  | .disableWriting c => c
  | .disableAll c => c
  | .remove c => c

/-- No other channel has the entry of its descriptor. -/
def Undisputed (fd : ι → ℤ) (s : Poller ι) (l : Call ι) : Prop :=
  s.channels (fd l.channel) = none ∨ s.channels (fd l.channel) = some l.channel

instance (s : Poller ι) (l : Call ι) : Decidable (s.Undisputed fd l) := by
  unfold Undisputed
  infer_instance

/-- The `index_` of every channel says what `channels_` and the interest list hold of it, and they
hold nothing else. -/
structure Consistent (fd : ι → ℤ) (s : Poller ι) : Prop where
  failed : ∀ c, s.failed c = 0
  index : ∀ c, s.index c ≠ .kNew ↔ s.channels (fd c) = some c
  added : ∀ c, s.index c = .kAdded → (s.interest (fd c)).isSome = true
  entries : ∀ f c, s.channels f = some c → fd c = f
  interest : ∀ f, ∀ events ∈ s.interest f, ∃ c, s.channels f = some c ∧ s.index c = .kAdded ∧
    events = s.events c

omit [DecidableEq ι] in
theorem consistent_new : Consistent fd (new : Poller ι) where
  failed _ := rfl
  index c := by simp [new]
  added c h := by simp [new] at h
  entries f c h := by simp [new] at h
  interest f events h := by simp [new] at h

/-! ### A call touches one channel and one descriptor -/

/-- From `s` to `t` nothing changed but what concerns the channel `c` and its descriptor. -/
structure Touches (fd : ι → ℤ) (c : ι) (s t : Poller ι) : Prop where
  channels : ∀ f, f ≠ fd c → t.channels f = s.channels f
  interest : ∀ f, f ≠ fd c → t.interest f = s.interest f
  index : ∀ d, d ≠ c → t.index d = s.index d
  events : ∀ d, d ≠ c → t.events d = s.events d
  failed : ∀ d, d ≠ c → t.failed d = s.failed d

omit [DecidableEq ι] in
theorem Touches.trans {u : Poller ι} (h : Touches fd c s t) (h' : Touches fd c t u) :
    Touches fd c s u where
  channels f hf := (h'.channels f hf).trans (h.channels f hf)
  interest f hf := (h'.interest f hf).trans (h.interest f hf)
  index d hd := (h'.index d hd).trans (h.index d hd)
  events d hd := (h'.events d hd).trans (h.events d hd)
  failed d hd := (h'.failed d hd).trans (h.failed d hd)

theorem touches_setIndex (s : Poller ι) (c : ι) (index : ChannelIndex) :
    Touches fd c s (s.setIndex c index) where
  channels _ _ := rfl
  interest _ _ := rfl
  index _ hd := Function.update_of_ne hd _ _
  events _ _ := rfl
  failed _ _ := rfl

omit [DecidableEq ι] in
theorem touches_channels (s : Poller ι) (c : ι) (channel : Option ι) :
    Touches fd c s { s with channels := Function.update s.channels (fd c) channel } where
  channels _ hf := Function.update_of_ne hf _ _
  interest _ _ := rfl
  index _ _ := rfl
  events _ _ := rfl
  failed _ _ := rfl

theorem touches_events (s : Poller ι) (c : ι) (events : Channel) :
    Touches fd c s { s with events := Function.update s.events c events } where
  channels _ _ := rfl
  interest _ _ := rfl
  index _ _ := rfl
  events _ hd := Function.update_of_ne hd _ _
  failed _ _ := rfl

theorem touches_update (s : Poller ι) (op : EpollOp) (c : ι) :
    Touches fd c s (s.update fd op c) := by
  unfold update
  split
  · exact ⟨fun _ _ => rfl, fun _ hf => Function.update_of_ne hf _ _, fun _ _ => rfl,
      fun _ _ => rfl, fun _ _ => rfl⟩
  · exact ⟨fun _ _ => rfl, fun _ _ => rfl, fun _ _ => rfl, fun _ _ => rfl,
      fun _ hd => Function.update_of_ne hd _ _⟩

theorem touches_setEvents {events : Channel} (h : s.setEvents fd c events = some t) :
    Touches fd c s t := by
  have hevents : Touches fd c s { s with events := Function.update s.events c events } :=
    touches_events s c events
  unfold setEvents updateChannel at h
  split at h
  · cases h
    exact ((hevents.trans (touches_channels _ c _)).trans (touches_setIndex _ c _)).trans
      (touches_update _ _ c)
  · split_ifs at h
    cases h
    exact (hevents.trans (touches_setIndex _ c _)).trans (touches_update _ _ c)
  · cases h
    split_ifs
    · exact (hevents.trans (touches_update _ _ c)).trans (touches_setIndex _ c _)
    · exact hevents.trans (touches_update _ _ c)

theorem touches_removeChannel (s : Poller ι) (c : ι) : Touches fd c s (s.removeChannel fd c) := by
  have hclear : Touches fd c s { s with channels := Function.update s.channels (fd c) none } :=
    touches_channels s c none
  unfold removeChannel
  dsimp only
  split_ifs
  · exact (hclear.trans (touches_update _ _ c)).trans (touches_setIndex _ c _)
  · exact hclear.trans (touches_setIndex _ c _)

theorem touches_step {l : Call ι} (h : step fd s l = some t) : Touches fd l.channel s t := by
  cases l with
  | remove c =>
    rw [step] at h
    split_ifs at h
    cases h
    exact touches_removeChannel s c
  | enableReading c => exact touches_setEvents h
  | disableReading c => exact touches_setEvents h
  | enableWriting c => exact touches_setEvents h
  | disableWriting c => exact touches_setEvents h
  | disableAll c => exact touches_setEvents h

/-! ### What a call does to its entry -/

theorem channels_update (s : Poller ι) (op : EpollOp) : (s.update fd op c).channels = s.channels := by
  unfold update
  split <;> rfl

/-- A channel that changes its events has the entry behind it. -/
theorem channels_setEvents (hs : s.Consistent fd) {events : Channel}
    (h : s.setEvents fd c events = some t) : t.channels (fd c) = some c := by
  unfold setEvents updateChannel at h
  split at h
  · cases h
    rw [channels_update]
    exact Function.update_self _ _ _
  · split_ifs at h with hentry
    cases h
    rw [channels_update]
    exact hentry
  · rename_i hindex
    have hentry : s.channels (fd c) = some c := by
      refine (hs.index c).1 ?_
      rw [show s.index c = .kAdded from hindex]
      decide
    cases h
    split_ifs
    · exact (congrFun (channels_update _ _) _).trans hentry
    · exact (congrFun (channels_update _ _) _).trans hentry

theorem channels_removeChannel (s : Poller ι) (c : ι) :
    (s.removeChannel fd c).channels (fd c) = none := by
  unfold removeChannel
  dsimp only
  split_ifs
  · show (update fd _ _ c).channels (fd c) = none
    rw [channels_update]
    exact Function.update_self _ _ _
  · exact Function.update_self _ _ _

theorem channels_step (hs : s.Consistent fd) {l : Call ι} (h : step fd s l = some t) :
    t.channels (fd l.channel) = none ∨ t.channels (fd l.channel) = some l.channel := by
  cases l with
  | remove c =>
    rw [step] at h
    split_ifs at h
    cases h
    exact .inl (channels_removeChannel s c)
  | enableReading c => exact .inr (channels_setEvents hs h)
  | disableReading c => exact .inr (channels_setEvents hs h)
  | enableWriting c => exact .inr (channels_setEvents hs h)
  | disableWriting c => exact .inr (channels_setEvents hs h)
  | disableAll c => exact .inr (channels_setEvents hs h)

/-! ### Every run -/

/-- Where the entry of its descriptor is free or its own, a channel sees the bookkeeping it would
see with a descriptor that nobody else has. -/
theorem Consistent.agrees (hs : s.Consistent fd)
    (h : s.channels (fd c) = none ∨ s.channels (fd c) = some c) : Agrees fd s c := by
  have howner : ∀ d, s.channels (fd c) = some d → d = c := by
    intro d hd
    rcases h with hnone | hsome
    · rw [hnone] at hd
      cases hd
    · rw [hsome] at hd
      cases hd
      rfl
  refine ⟨hs.failed c, h, ⟨?_, ?_⟩, fun events hevents => ?_⟩
  · show s.hasChannel fd c = true ↔ s.index c ≠ .kNew
    rw [hs.index c]
    exact decide_eq_true_iff
  · show (s.interest (fd c)).isSome = true ↔ s.index c = .kAdded
    refine ⟨fun hsome => ?_, hs.added c⟩
    obtain ⟨events, hevents⟩ := Option.isSome_iff_exists.1 hsome
    obtain ⟨d, hd, hadded, -⟩ := hs.interest _ _ hevents
    rwa [howner d hd] at hadded
  · obtain ⟨d, hd, -, heq⟩ := hs.interest _ _ hevents
    rwa [howner d hd] at heq

/-- If the channel that made a call agrees with the bookkeeping, all of it is consistent. -/
theorem Consistent.of_touches (hs : s.Consistent fd) (htouches : Touches fd c s t)
    (hc : Agrees fd t c) (hentry : s.channels (fd c) = none ∨ s.channels (fd c) = some c) :
    t.Consistent fd := by
  -- another channel with this descriptor is new, and stays so
  have hother : ∀ d, d ≠ c → fd d = fd c → s.index d = .kNew ∧ t.channels (fd d) ≠ some d := by
    intro d hd hfd
    constructor
    · by_contra hne
      have hown := (hs.index d).1 hne
      rw [hfd] at hown
      rcases hentry with hnone | hsome
      · rw [hnone] at hown
        cases hown
      · rw [hsome] at hown
        cases hown
        exact hd rfl
    · rw [hfd]
      intro hown
      rcases hc.channels with hnone | hsome
      · rw [hnone] at hown
        cases hown
      · rw [hsome] at hown
        cases hown
        exact hd rfl
  have hself : t.index c ≠ .kNew ↔ t.channels (fd c) = some c :=
    hc.part.inChannels.symm.trans decide_eq_true_iff
  refine ⟨fun d => ?_, fun d => ?_, fun d hadded => ?_, fun f d hf => ?_, fun f events hf => ?_⟩
  · by_cases hd : d = c
    · rw [hd]
      exact hc.failed
    · rw [htouches.failed d hd]
      exact hs.failed d
  · by_cases hd : d = c
    · rw [hd]
      exact hself
    · rw [htouches.index d hd]
      by_cases hfd : fd d = fd c
      · obtain ⟨hnew, hnot⟩ := hother d hd hfd
        exact iff_of_false (not_not.2 hnew) hnot
      · rw [htouches.channels _ hfd]
        exact hs.index d
  · by_cases hd : d = c
    · rw [hd] at hadded ⊢
      exact hc.part.interest.2 hadded
    · rw [htouches.index d hd] at hadded
      by_cases hfd : fd d = fd c
      · rw [(hother d hd hfd).1] at hadded
        cases hadded
      · rw [htouches.interest _ hfd]
        exact hs.added d hadded
  · by_cases hne : f = fd c
    · rw [hne] at hf ⊢
      rcases hc.channels with hnone | hsome
      · rw [hnone] at hf
        cases hf
      · rw [hsome] at hf
        cases hf
        rfl
    · rw [htouches.channels f hne] at hf
      exact hs.entries f d hf
  · by_cases hne : f = fd c
    · rw [hne] at hf ⊢
      have hadded : t.index c = .kAdded := hc.part.interest.1 (Option.isSome_of_mem hf)
      exact ⟨c, hself.1 (by rw [hadded]; decide), hadded, hc.events events hf⟩
    · rw [htouches.interest f hne] at hf
      obtain ⟨d, hd, hadded, heq⟩ := hs.interest f events hf
      have hdc : d ≠ c := by
        rintro rfl
        exact hne (hs.entries f d hd).symm
      refine ⟨d, (htouches.channels f hne).trans hd, (htouches.index d hdc).trans hadded, ?_⟩
      rw [htouches.events d hdc]
      exact heq

/-- A channel that may call the poller does not fail, and the bookkeeping stays consistent. -/
theorem consistent_step (hs : s.Consistent fd) {l : Call ι} (hl : s.Undisputed fd l)
    (hidle : s.RemovesIdle l) : ∃ t, step fd s l = some t ∧ t.Consistent fd ∧
      Agrees fd t l.channel := by
  have hevents : ∀ c events, (s.channels (fd c) = none ∨ s.channels (fd c) = some c) →
      ∃ t, s.setEvents fd c events = some t ∧ t.Consistent fd ∧ Agrees fd t c := by
    intro c events hentry
    obtain ⟨t, ht, hagrees⟩ := (hs.agrees hentry).setEvents events
    exact ⟨t, ht, hs.of_touches (touches_setEvents ht) hagrees hentry, hagrees⟩
  cases l with
  | remove c =>
    have hagrees := (hs.agrees hl).removeChannel
    exact ⟨_, if_pos hidle, hs.of_touches (touches_removeChannel s c) hagrees hl, hagrees⟩
  | enableReading c => exact hevents c _ hl
  | disableReading c => exact hevents c _ hl
  | enableWriting c => exact hevents c _ hl
  | disableWriting c => exact hevents c _ hl
  | disableAll c => exact hevents c _ hl

/-- A call keeps the bookkeeping consistent exactly when it is undisputed. -/
theorem consistent_step_iff (hs : s.Consistent fd) {l : Call ι} (h : step fd s l = some t) :
    t.Consistent fd ↔ s.Undisputed fd l := by
  constructor
  · intro ht
    by_contra hl
    unfold Undisputed at hl
    obtain ⟨hnone, hown⟩ := not_or.1 hl
    obtain ⟨d, hd⟩ := Option.ne_none_iff_exists'.1 hnone
    have hne : d ≠ l.channel := by
      rintro rfl
      exact hown hd
    -- the channel that had the entry does not know that it lost it
    have hfd : fd d = fd l.channel := hs.entries _ _ hd
    have hindex : t.index d ≠ .kNew := by
      rw [(touches_step h).index d hne, hs.index d, hfd]
      exact hd
    have hentry := (ht.index d).1 hindex
    rw [hfd] at hentry
    rcases channels_step hs h with hlost | hlost
    · rw [hlost] at hentry
      cases hentry
    · rw [hlost] at hentry
      cases hentry
      exact hne rfl
  · intro hl
    obtain ⟨t', ht', hconsistent, -⟩ := consistent_step hs hl (removesIdle_of_step h)
    rw [h] at ht'
    cases ht'
    exact hconsistent

/-- **Descriptors may be used again.**  For any channels, with any descriptors, of which none is
closed while it is in the interest list, the bookkeeping of the poller is consistent in every state
of a run if and only if no channel calls it while another one has the entry of its descriptor; and
then no call fails, apart from a `remove` of a channel with events. -/
theorem consistent_iff {ls : List (Call ι)} (h : run (step fd) new ls = some s) :
    ((∀ ms u, ms <+: ls → run (step fd) new ms = some u → u.Consistent fd) ↔
      Along (step fd) (Undisputed fd) new ls) ∧
    (Along (step fd) (Undisputed fd) new ls → ∀ l, s.Undisputed fd l → s.RemovesIdle l →
      ∃ t, step fd s l = some t ∧ t.Consistent fd) := by
  refine ⟨?_, fun hls l hl hidle => ?_⟩
  · exact forall_prefix_iff_along (I := fun _ => True) (fun _ _ _ _ _ => trivial)
      (fun u l t _ hu hstep => consistent_step_iff hu hstep) trivial consistent_new h
  · have hs : s.Consistent fd := run_preserves_along
      (fun u l t hu hl hstep => (consistent_step_iff hu hstep).2 hl) consistent_new hls h
    obtain ⟨t, ht, hconsistent, -⟩ := consistent_step hs hl hidle
    exact ⟨t, ht, hconsistent⟩

/-- Two channels on descriptor 5, one after the other. -/
def successors : List (Call Bool) :=
  [.enableReading true, .disableAll true, .remove true, .enableReading false]

theorem consistent_iff_successors :
    ∃ s, run (step fun _ : Bool => 5) new successors = some s ∧
      s.channels 5 = some false ∧ s.index true = .kNew ∧ s.Consistent fun _ => 5 := by
  have hrun : run (step fun _ : Bool => 5) new successors = some _ := rfl
  exact ⟨_, hrun, rfl, rfl,
    ((consistent_iff hrun).1.2 (by decide)) _ _ (List.prefix_refl _) hrun⟩

end Poller

end TinyNetwork
