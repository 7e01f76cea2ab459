import TinyNetwork.Net.TcpConnection

/-!
# `class EPollPoller` (src/net/poller/EpollPoller.cpp)

What the poller and the kernel know of one file descriptor: whether `channels_` has an entry for
it, the `index_` of its channel, and the events it has in the interest list of the epoll instance.
Channels with different descriptors do not touch each other here, so this is the part of
the poller that belongs to one channel.

`epoll_ctl` fails when a descriptor is added that is there, or modified or deleted when it is not;
the code logs this, and `failed` counts it.
-/

namespace TinyNetwork

/-- `index_` of a channel. -/
inductive ChannelIndex
  | kNew
  | kAdded
  | kDeleted
  deriving DecidableEq

inductive EpollOp
  | EPOLL_CTL_ADD
  | EPOLL_CTL_MOD
  | EPOLL_CTL_DEL
  deriving DecidableEq

/-- The events with which a descriptor is in the interest list, if it is there. -/
abbrev Interest := Option Channel

/-- `epoll_ctl`; `none` when the call fails. -/
def epollCtl (op : EpollOp) (events : Channel) (interest : Interest) : Option Interest :=
  match op, interest with
  | .EPOLL_CTL_ADD, none => some (some events)
  | .EPOLL_CTL_ADD, some _ => none
  | .EPOLL_CTL_MOD, some _ => some (some events)
  | .EPOLL_CTL_MOD, none => none
  | .EPOLL_CTL_DEL, some _ => some none
  | .EPOLL_CTL_DEL, none => none

structure Registration where
  index : ChannelIndex := .kNew
  inChannels : Bool := false
  interest : Interest := none
  failed : ℕ := 0
  deriving DecidableEq

namespace Registration

/-- `EPollPoller::update`. -/
def update (r : Registration) (op : EpollOp) (events : Channel) : Registration :=
  match epollCtl op events r.interest with
  | some interest => { r with interest := interest }
  | none => { r with failed := r.failed + 1 }

/-- `updateChannel(channel)` for a channel with the events `ch`; `none` when the assertion on
`channels_` fails. -/
def updateChannel (r : Registration) (ch : Channel) : Option Registration :=
  match r.index with
  | .kNew => some ({ r with inChannels := true, index := .kAdded }.update .EPOLL_CTL_ADD ch)
  | .kDeleted =>
    if r.inChannels then some ({ r with index := .kAdded }.update .EPOLL_CTL_ADD ch) else none
  | .kAdded =>
    some (if ch.isNoneEvent then { r.update .EPOLL_CTL_DEL ch with index := .kDeleted }
      else r.update .EPOLL_CTL_MOD ch)

/-- `removeChannel(channel)`. -/
def removeChannel (r : Registration) (ch : Channel) : Registration :=
  let r := { r with inChannels := false }
  let r := if r.index = .kAdded then r.update .EPOLL_CTL_DEL ch else r
  { r with index := .kNew }

/-- The index says where the descriptor is. -/
structure WellFormed (r : Registration) : Prop where
  inChannels : r.inChannels = true ↔ r.index ≠ .kNew
  interest : r.interest.isSome = true ↔ r.index = .kAdded

theorem wellFormed_new : WellFormed {} := ⟨by simp, by simp⟩

/-- `updateChannel` on a channel that is not registered adds it, whatever its events are. -/
theorem updateChannel_of_ne {r : Registration} (hr : r.WellFormed) (h : r.index ≠ .kAdded)
    (ch : Channel) :
    r.updateChannel ch =
      some { r with index := .kAdded, inChannels := true, interest := some ch } := by
  have hnone : r.interest = none := by
    rw [← Option.not_isSome_iff_eq_none, hr.interest]
    exact h
  cases hi : r.index with
  | kNew => simp [updateChannel, hi, update, hnone, epollCtl]
  | kAdded => exact absurd hi h
  | kDeleted =>
    have hin : r.inChannels = true := hr.inChannels.2 (by rw [hi]; decide)
    simp [updateChannel, hi, update, hnone, epollCtl, hin]

/-- On a registered channel it changes the events, and deletes the descriptor when there are
none. -/
theorem updateChannel_of_eq {r : Registration} (hr : r.WellFormed) (h : r.index = .kAdded)
    (ch : Channel) :
    r.updateChannel ch =
      some (if ch.isNoneEvent then { r with index := .kDeleted, interest := none }
        else { r with interest := some ch }) := by
  obtain ⟨old, hold⟩ := Option.isSome_iff_exists.1 (hr.interest.2 h)
  unfold updateChannel
  rw [h]
  split_ifs <;> simp [update, hold, epollCtl, h]

/-- The bookkeeping stays consistent, and no assertion fails. -/
theorem WellFormed.updateChannel {r : Registration} (hr : r.WellFormed) (ch : Channel) :
    ∃ r', r.updateChannel ch = some r' ∧ r'.WellFormed ∧
      (ch.isNoneEvent = true → r.index = .kAdded → r'.interest = none) := by
  by_cases h : r.index = .kAdded
  · refine ⟨_, updateChannel_of_eq hr h ch, ?_, fun hnone _ => by rw [if_pos hnone]⟩
    have hin : r.inChannels = true := hr.inChannels.2 (by rw [h]; decide)
    split_ifs
    · exact ⟨by simp [hin], by simp⟩
    · exact ⟨by simp [hin, h], by simp [h]⟩
  · exact ⟨_, updateChannel_of_ne hr h ch, ⟨by simp, by simp⟩, fun _ hadded => absurd hadded h⟩

/-- A removed channel is gone from `channels_` and from the interest list. -/
theorem WellFormed.removeChannel {r : Registration} (hr : r.WellFormed) (ch : Channel) :
    r.removeChannel ch = { r with index := .kNew, inChannels := false, interest := none } := by
  unfold Registration.removeChannel
  by_cases h : r.index = .kAdded
  · obtain ⟨old, hold⟩ := Option.isSome_iff_exists.1 (hr.interest.2 h)
    simp [h, update, hold, epollCtl]
  · have hnone : r.interest = none := by
      rw [← Option.not_isSome_iff_eq_none, hr.interest]
      exact h
    simp [h, hnone]

end Registration

end TinyNetwork
