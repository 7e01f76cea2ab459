import TinyNetwork.Net.Poller

/-!
# Channels without interest

A channel that disables its last event is taken out of the interest list.  A channel that is not in
the list is added by the next update whatever its events are, so a channel that has no events and
disables some is registered with an empty mask.

`interest_iff`: these calls are the only ones after which the interest list is not the list of the
channels that have events.
-/

namespace TinyNetwork

open Lts

namespace Poller

variable {ι : Type*} [DecidableEq ι] {fd : ι → ℤ}

/-- The interest list holds the channels that have events. -/
def Interested (fd : ι → ℤ) (s : Poller ι) : Prop :=
  ∀ c, (s.interest (fd c)).isSome = true ↔ (s.events c).isNoneEvent = false

/-- A channel disables events only while it has some. -/
def DisablesBusy (s : Poller ι) : Call ι → Prop
  | .disableReading c | .disableWriting c | .disableAll c => (s.events c).isNoneEvent = false
  | _ => True

instance (s : Poller ι) (l : Call ι) : Decidable (s.DisablesBusy l) := by
  unfold DisablesBusy
  split <;> infer_instance

/-- After an update the descriptor is in the list, unless the update took it out. -/
theorem interest_setEvents {s t : Poller ι} {c : ι} (hs : Agrees fd s c) {events : Channel}
    (h : s.setEvents fd c events = some t) :
    t.events c = events ∧ ((t.interest (fd c)).isSome = true ↔
      (s.interest (fd c)).isSome = false ∨ events.isNoneEvent = false) := by
  set u : Poller ι := { s with events := Function.update s.events c events } with hu
  have hevents : u.events c = events := Function.update_self _ _ _
  have hwf : (u.part fd c).WellFormed := hs.part
  have hpart := part_updateChannel fd u c
  rw [hevents, show u.updateChannel fd c = some t from h, Option.map_some] at hpart
  have hinterest : (t.part fd c).interest = t.interest (fd c) := rfl
  refine ⟨(congrFun (updateChannel_events h) c).trans hevents, ?_⟩
  by_cases hadded : (u.part fd c).index = .kAdded
  · have hin : (s.interest (fd c)).isSome = true := hwf.interest.2 hadded
    rw [Registration.updateChannel_of_eq hwf hadded] at hpart
    rw [← hinterest, Option.some.inj hpart, hin]
    cases events.isNoneEvent <;> simp
  · have hout : (s.interest (fd c)).isSome = false := by
      rw [← Bool.not_eq_true]
      exact mt hwf.interest.1 hadded
    rw [Registration.updateChannel_of_ne hwf hadded] at hpart
    rw [← hinterest, Option.some.inj hpart, hout]
    simp

/-- An update keeps the list right unless the channel had no events and gets none. -/
theorem interested_setEvents (hfd : Function.Injective fd) {s t : Poller ι}
    (hagrees : ∀ d, Agrees fd s d) (hs : Interested fd s) {c : ι} {events : Channel}
    (h : s.setEvents fd c events = some t) :
    Interested fd t ↔ (s.events c).isNoneEvent = false ∨ events.isNoneEvent = false := by
  obtain ⟨hevents, hinterest⟩ := interest_setEvents (hagrees c) h
  have hc : ((t.interest (fd c)).isSome = true ↔ (t.events c).isNoneEvent = false) ↔
      (s.events c).isNoneEvent = false ∨ events.isNoneEvent = false := by
    have hold := hs c
    rw [hinterest, hevents]
    cases hsome : (s.interest (fd c)).isSome <;> cases hnone : (s.events c).isNoneEvent <;>
      cases events.isNoneEvent <;> simp [hsome, hnone] at hold ⊢
  rw [← hc]
  refine ⟨fun hall => hall c, fun hat d => ?_⟩
  by_cases hd : d = c
  · exact hd ▸ hat
  · have hsame := sameAt_setEvents hfd hd h
    rw [hsame.interest, hsame.events]
    exact hs d

theorem interested_removeChannel (hfd : Function.Injective fd) {s : Poller ι}
    (hagrees : ∀ d, Agrees fd s d) (hs : Interested fd s) {c : ι}
    (hidle : (s.events c).isNoneEvent = true) : Interested fd (s.removeChannel fd c) := by
  intro d
  by_cases hd : d = c
  · subst hd
    have hpart := part_removeChannel fd s d
    rw [(hagrees d).part.removeChannel] at hpart
    have hinterest : (s.removeChannel fd d).interest (fd d) = none :=
      congrArg Registration.interest hpart
    have hevents : (s.removeChannel fd d).events = s.events := by
      unfold removeChannel
      dsimp only
      split_ifs
      · exact update_events fd _ _ d
      · rfl
    rw [hinterest, hevents, hidle]
    simp
  · have hsame := sameAt_removeChannel hfd s hd
    rw [hsame.interest, hsame.events]
    exact hs d

/-- Events that are left over were there before. -/
theorem busy_of_disableReading (ch : Channel) (h : ch.disableReading.isNoneEvent = false) :
    ch.isNoneEvent = false := by
  cases ch with
  | mk reading writing => cases writing <;> simp [Channel.isNoneEvent, Channel.disableReading] at h ⊢

theorem busy_of_disableWriting (ch : Channel) (h : ch.disableWriting.isNoneEvent = false) :
    ch.isNoneEvent = false := by
  cases ch with
  | mk reading writing => cases reading <;> simp [Channel.isNoneEvent, Channel.disableWriting] at h ⊢

/-- A step keeps the list right exactly when no channel without events disables some. -/
theorem interested_step (hfd : Function.Injective fd) {s t : Poller ι}
    (hagrees : ∀ d, Agrees fd s d) (hs : Interested fd s) {l : Call ι}
    (h : step fd s l = some t) : Interested fd t ↔ s.DisablesBusy l := by
  cases l with
  | enableReading c =>
    rw [interested_setEvents hfd hagrees hs h]
    simp [DisablesBusy, Channel.isNoneEvent, Channel.enableReading]
  | disableReading c =>
    rw [interested_setEvents hfd hagrees hs h]
    exact or_iff_left_of_imp (busy_of_disableReading (s.events c))
  | enableWriting c =>
    rw [interested_setEvents hfd hagrees hs h]
    simp [DisablesBusy, Channel.isNoneEvent, Channel.enableWriting]
  | disableWriting c =>
    rw [interested_setEvents hfd hagrees hs h]
    exact or_iff_left_of_imp (busy_of_disableWriting (s.events c))
  | disableAll c =>
    rw [interested_setEvents hfd hagrees hs h]
    simp [DisablesBusy, Channel.isNoneEvent, Channel.disableAll]
  | remove c =>
    rw [step] at h
    split_ifs at h with hidle
    cases h
    exact iff_of_true (interested_removeChannel hfd hagrees hs hidle) trivial

/-- A `remove` that does not fail its assertion is one of a channel without events. -/
theorem removesIdle_of_step {s t : Poller ι} {l : Call ι} (h : step fd s l = some t) :
    s.RemovesIdle l := by
  cases l with
  | remove c =>
    rw [step] at h
    split_ifs at h with hidle
    exact hidle
  | enableReading c => trivial
  | disableReading c => trivial
  | enableWriting c => trivial
  | disableWriting c => trivial
  | disableAll c => trivial

/-- **A channel without events is not registered**, after any call, if and only if no call disables
events of a channel that has none. -/
theorem interest_iff (hfd : Function.Injective fd) {ls : List (Call ι)} {s : Poller ι}
    (h : run (step fd) new ls = some s) :
    (∀ ms u, ms <+: ls → run (step fd) new ms = some u → Interested fd u) ↔
      Along (step fd) DisablesBusy new ls := by
  refine forall_prefix_iff_along (I := fun u => ∀ d, Agrees fd u d) ?_ ?_ (fun d => agrees_new d)
    (fun c => ?_) h
  · intro u l t hu hstep
    obtain ⟨t', ht', hagrees⟩ := agrees_step hfd hu (removesIdle_of_step hstep)
    rw [hstep] at ht'
    cases ht'
    exact hagrees
  · intro u l t hu hinterested hstep
    exact interested_step hfd hu hinterested hstep
  · simp [new, Channel.isNoneEvent]

/-- A channel is enabled, disabled and enabled again, and then removed. -/
theorem interest_busy :
    ∃ s, run (step fun _ : Unit => 5) new
        [.enableReading (), .disableAll (), .enableWriting (), .disableWriting (), .remove ()] =
          some s ∧ Interested (fun _ => 5) s := by
  have hrun : run (step fun _ : Unit => 5) new
      [.enableReading (), .disableAll (), .enableWriting (), .disableWriting (), .remove ()] =
        some _ := rfl
  exact ⟨_, hrun, (interest_iff (fun _ _ _ => rfl) hrun).2 (by decide) _ _ (List.prefix_refl _) hrun⟩

/-- `disableAll` is called twice: the second call registers the channel with no events. -/
theorem registered_without_interest :
    ∃ s, run (step fun _ : Unit => 5) new [.enableReading (), .disableAll (), .disableAll ()] =
        some s ∧
      s.events () = {} ∧ s.interest 5 = some {} ∧ ¬ Interested (fun _ => 5) s := by
  refine ⟨_, rfl, rfl, rfl, fun hinterested => ?_⟩
  exact absurd ((hinterested ()).1 rfl) (by decide)

end Poller

end TinyNetwork
