import TinyNetwork.Lib.Run
import TinyNetwork.Lib.OrderedSet
import TinyNetwork.Base.TimeStamp
import Mathlib.Data.Prod.Lex
import Mathlib.Data.Int.Order.Lemmas
import Mathlib.Logic.Function.Basic

/-!
# `class TimerQueue` (src/time/TimerQueue.h, src/time/TimerQueue.cpp) and its timerfd

`timers_` is ordered by expiration and then by the address of the timer; the timers themselves lie
in `memory`.  The clock is the one that `gettimeofday` reads and by which the timerfd counts; it
moves with `tick`, and by `delay` between the reading in `resetTimerfd` and its `timerfd_settime`.
An armed timerfd may `expire` from its deadline on.

`handleRead` goes `idle` → `reading` → `calling` → `resetting` → `idle`.  Its callbacks may call
`addTimerInLoop`.  `armings` is history.
-/

namespace TinyNetwork

/-- `class Timer` without its callback; `interval` counts microseconds. -/
structure Timer where
  expiration : TimeStamp
  interval : ℤ
  repeat_ : Bool

def Timer.restart (t : Timer) (now : TimeStamp) : Timer :=
  if t.repeat_ then { t with expiration := addTime now t.interval } else { t with expiration := 0 }

namespace TimerQueue

/-- `std::pair<TimeStamp, Timer *>`. -/
abbrev Entry := ℤ ×ₗ ℕ

def Entry.make (when : TimeStamp) (timer : ℕ) : Entry := toLex (when, timer)

def Entry.when (e : Entry) : TimeStamp := (ofLex e).1

def Entry.timer (e : Entry) : ℕ := (ofLex e).2

structure Timespec where
  tv_sec : ℤ
  tv_nsec : ℤ
  deriving DecidableEq

/-- The timerfd: not armed, armed, or expired and not read yet. -/
inductive Timerfd
  | disarmed
  | armed (deadline : TimeStamp)
  | expired
  deriving DecidableEq

/-- A call of `resetTimerfd`: the clock it read, the clock when it set the timerfd, and `it_value`. -/
structure Arming where
  now : TimeStamp
  settime : TimeStamp
  value : Timespec
  deriving DecidableEq

inductive Phase
  | idle
  | reading (now : TimeStamp)
  | calling (expired : List Entry) (called : ℕ)
  | resetting (expired : List Entry)
  deriving DecidableEq

inductive Label
  | tick (now : TimeStamp)
  | expire
  | addTimerInLoop (timer : ℕ) (contents : Timer) (delay : ℕ)
  | handleRead
  | readTimerfd
  | run
  | endCalling
  | restart
  | endReset (delay : ℕ)

end TimerQueue

open TimerQueue in
structure TimerQueue where
  clock : TimeStamp
  memory : ℕ → Timer
  timerfd : Timerfd := .disarmed
  timers : OrderedSet Entry := .empty
  phase : Phase := .idle
  armings : List Arming := []

namespace TimerQueue

def construct (clock : TimeStamp) (memory : ℕ → Timer) : TimerQueue :=
  { clock := clock, memory := memory }

/-- `timerfd_settime` with a relative time and no interval; a zero `it_value` disarms. -/
def timerfdSettime (clock : TimeStamp) (value : Timespec) : Timerfd :=
  if value = ⟨0, 0⟩ then .disarmed
  else .armed (clock + value.tv_sec * 1000000 + value.tv_nsec / 1000)

/-- The time to wait; the difference is an `int64_t`. -/
def microseconds (expiration now : TimeStamp) : ℤ :=
  let difference := (expiration - now).bmod (2 ^ 64)
  if difference < 100 then 100 else difference

def timespecOf (microseconds : ℤ) : Timespec where
  tv_sec := microseconds / kMicroSecondsPerSecond
  tv_nsec := microseconds % kMicroSecondsPerSecond * 1000

def resetTimerfd (s : TimerQueue) (expiration : TimeStamp) (delay : ℕ) : TimerQueue :=
  let value := timespecOf (microseconds expiration s.clock)
  { s with
    clock := s.clock + delay
    timerfd := timerfdSettime (s.clock + delay) value
    armings := s.armings ++ [⟨s.clock, s.clock + delay, value⟩] }

/-- Does an entry at `when` come first? -/
def earliestChanged (s : TimerQueue) (when : TimeStamp) : Bool :=
  match s.timers.first? with
  | none => true
  | some it => when < it.when

def insert (s : TimerQueue) (timer : ℕ) : Bool × TimerQueue :=
  let when := (s.memory timer).expiration
  (s.earliestChanged when, { s with timers := s.timers.insert (.make when timer) })

def addTimerInLoop (s : TimerQueue) (timer : ℕ) (delay : ℕ) : TimerQueue :=
  if (s.insert timer).1 then
    (s.insert timer).2.resetTimerfd (s.memory timer).expiration delay
  else (s.insert timer).2

/-- Reading clears an expiration; otherwise the read fails. -/
def readTimerfd (s : TimerQueue) : TimerQueue :=
  match s.timerfd with
  | .expired => { s with timerfd := .disarmed }
  | _ => s

/-- `(now, UINTPTR_MAX)`. -/
def sentry (now : TimeStamp) : Entry := .make now (2 ^ 64 - 1)

def getExpired (s : TimerQueue) (now : TimeStamp) : List Entry × TimerQueue :=
  (s.timers.below (sentry now), { s with timers := s.timers.above (sentry now) })

/-- One turn of the loop in `reset`: a periodic timer is inserted again, another one deleted. -/
def restart (s : TimerQueue) (e : Entry) : TimerQueue :=
  if (s.memory e.timer).repeat_ then
    ({ s with
      memory := Function.update s.memory e.timer ((s.memory e.timer).restart s.clock) }.insert
        e.timer).2
  else s

/-- The end of `reset`. -/
def endReset (s : TimerQueue) (delay : ℕ) : TimerQueue :=
  match s.timers.first? with
  | none => s
  | some it => s.resetTimerfd (s.memory it.timer).expiration delay

/-- The expired timers that `handleRead` holds. -/
def Phase.held : Phase → List Entry
  | .calling expired _ => expired
  | .resetting expired => expired
  | _ => []

/-- The timers that are in use. -/
def alive (s : TimerQueue) : List ℕ := (s.timers.toList ++ s.phase.held).map Entry.timer

/-- The loop thread is outside `handleRead`, or in a callback. -/
def Phase.Outside : Phase → Prop
  | .idle => True
  | .calling _ called => 0 < called
  | _ => False

instance (p : Phase) : Decidable p.Outside :=
  match p with
  | .idle => isTrue trivial
  | .reading _ => isFalse id
  | .calling _ called => inferInstanceAs (Decidable (0 < called))
  | .resetting _ => isFalse id

def step (s : TimerQueue) : Label → Option TimerQueue
  | .tick now => if s.clock ≤ now then some { s with clock := now } else none
  | .expire =>
    match s.timerfd with
    | .armed deadline =>
      if deadline ≤ s.clock then some { s with timerfd := .expired } else none
    | _ => none
  -- the new timer lies at an address that is not in use
  | .addTimerInLoop timer contents delay =>
    if s.phase.Outside ∧ timer ∉ s.alive then
      some ({ s with memory := Function.update s.memory timer contents }.addTimerInLoop timer delay)
    else none
  | .handleRead =>
    if s.phase = .idle then some { s with phase := .reading s.clock } else none
  | .readTimerfd =>
    match s.phase with
    | .reading now =>
      let (expired, t) := s.readTimerfd.getExpired now
      some { t with phase := .calling expired 0 }
    | _ => none
  | .run =>
    match s.phase with
    | .calling expired called =>
      if called < expired.length then some { s with phase := .calling expired (called + 1) }
      else none
    | _ => none
  | .endCalling =>
    match s.phase with
    | .calling expired called =>
      if called = expired.length then some { s with phase := .resetting expired } else none
    | _ => none
  | .restart =>
    match s.phase with
    | .resetting (e :: rest) => some { s.restart e with phase := .resetting rest }
    | _ => none
  | .endReset delay =>
    match s.phase with
    | .resetting [] => some { s.endReset delay with phase := .idle }
    | _ => none

end TimerQueue

end TinyNetwork
