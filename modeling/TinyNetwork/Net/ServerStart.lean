import TinyNetwork.Lib.Progress
import TinyNetwork.Net.LoopBalance

/-!
# How a server starts

`TcpServer::start()` (src/net/TcpServer.cpp) starts the pool of I/O loops at its first call and then
has the base loop listen.  `EventLoopThreadPool::start` (src/net/EventLoopThreadPool.cpp) makes the
threads one after the other: `Thread::start` waits on a semaphore until the new thread runs,
`EventLoopThread::startLoop` waits on a condition variable until it has published its loop, and only
then is the loop appended to `loops_`.

A label is one step of one thread.  There are `m` threads besides that of the base loop, which is
number `0`; any of them may call `start()`, any number of times.  `started_` counts the calls in 32
bits.  Wakeups may be spurious.

As long as `started_` has not come round, which takes more than `2 ^ 32` calls, the pool is started
once.  `start_orderly`: then, if no thread passes the test of `listenning()` while another one is
starting the pool, no connection is accepted before all loops run.  `start_returns`: the calls of
`start()` return, and the server listens.
-/

namespace TinyNetwork

open Lts

namespace ServerStart

/-- Where a caller is in the loop of `EventLoopThreadPool::start`: in front of it, in `sem_wait`, at
the test of `loop_`, in `cond_.wait`. -/
inductive Phase
  | create
  | sem
  | check
  | wait
  deriving DecidableEq

/-- Where a thread is in `TcpServer::start()`. -/
inductive Caller
  | outside
  | pool (i : ℕ) (p : Phase)
  | test
  | runInLoop
  deriving DecidableEq

/-- Where a new thread is: it runs when it has posted the semaphore. -/
inductive Worker
  | notStarted
  | created
  | running
  | published
  deriving DecidableEq

inductive Label (m : ℕ)
  | start (t : Fin (m + 1))
  | create (t : Fin (m + 1))
  | post (i : ℕ)
  | semReturn (t : Fin (m + 1))
  | check (t : Fin (m + 1))
  | publish (i : ℕ)
  | spurious (t : Fin (m + 1))
  | test (t : Fin (m + 1))
  | runInLoop (t : Fin (m + 1))
  | runListen
  | newConnection
  deriving DecidableEq

end ServerStart

open ServerStart in
/-- `pending` is the number of functors `Acceptor::listen` in the queue of the base loop.  Two
fields are history: `calls` is how often `start()` was called, and `accepted` are the loops of the
connections. -/
structure ServerStart (m : ℕ) where
  started : BitVec 32 := 0
  calls : ℕ := 0
  callers : Fin (m + 1) → Caller := fun _ => .outside
  threads : ℕ → Worker := fun _ => .notStarted
  loops : List LoopId := []
  next : ℕ := 0
  listenning : Bool := false
  pending : ℕ := 0
  accepted : List LoopId := []

namespace ServerStart

variable {m : ℕ} (n : ℕ)

def new : ServerStart m := {}

/-- The thread of the base loop. -/
def baseThread : Fin (m + 1) := ⟨0, Nat.succ_pos m⟩

def setCaller (s : ServerStart m) (t : Fin (m + 1)) (c : Caller) : ServerStart m :=
  { s with callers := Function.update s.callers t c }

def setThread (s : ServerStart m) (i : ℕ) (w : Worker) : ServerStart m :=
  { s with threads := Function.update s.threads i w }

/-- `cond_.notify_one()` of thread `i`, for which one caller waits at most. -/
def notify (i : ℕ) : Caller → Caller
  | .pool j .wait => if j = i then .pool j .check else .pool j .wait
  | c => c

/-- `getNextLoop()`. -/
def getNextLoop (s : ServerStart m) : LoopId × ℕ :=
  match s.loops[s.next]? with
  | none => (baseLoop, s.next)
  | some loop => (loop, if s.loops.length ≤ s.next + 1 then 0 else s.next + 1)

/-- One step of a server with `n` I/O loops. -/
def step (s : ServerStart m) : Label m → Option (ServerStart m)
  | .start t =>
    if s.callers t = .outside then
      some ({ s with started := s.started + 1, calls := s.calls + 1 }.setCaller t
        (if s.started = 0 then .pool 0 .create else .test))
    else none
  | .create t =>
    match s.callers t with
    | .pool i .create =>
      some (if i < n then (s.setThread i .created).setCaller t (.pool i .sem)
        else s.setCaller t .test)
    | _ => none
  | .post i => if s.threads i = .created then some (s.setThread i .running) else none
  | .semReturn t =>
    match s.callers t with
    | .pool i .sem =>
      if s.threads i = .running ∨ s.threads i = .published then
        some (s.setCaller t (.pool i .check))
      else none
    | _ => none
  | .check t =>
    match s.callers t with
    | .pool i .check =>
      some (if s.threads i = .published then
          { s with loops := s.loops ++ [i + 1] }.setCaller t (.pool (i + 1) .create)
        else s.setCaller t (.pool i .wait))
    | _ => none
  | .publish i =>
    if s.threads i = .running then
      some { s.setThread i .published with callers := fun t => notify i (s.callers t) }
    else none
  | .spurious t =>
    match s.callers t with
    | .pool i .wait => some (s.setCaller t (.pool i .check))
    | _ => none
  | .test t =>
    if s.callers t = .test then
      some (s.setCaller t (if s.listenning then .outside else .runInLoop))
    else none
  | .runInLoop t =>
    if s.callers t = .runInLoop then
      -- in the thread of the base loop `listen` is called at once
      some ((if t = baseThread then { s with listenning := true }
        else { s with pending := s.pending + 1 }).setCaller t .outside)
    else none
  | .runListen =>
    if s.callers baseThread = .outside ∧ 0 < s.pending then
      some { s with pending := s.pending - 1, listenning := true }
    else none
  | .newConnection =>
    if s.callers baseThread = .outside ∧ s.listenning = true then
      some { s with accepted := s.accepted ++ [s.getNextLoop.1], next := s.getNextLoop.2 }
    else none

/-! ### The steps -/

/-- What each step does, and when it can be made. -/
inductive StepTo (s : ServerStart m) : Label m → ServerStart m → Prop
  | first (u : Fin (m + 1)) (hu : s.callers u = .outside) (h0 : s.started = 0) :
      StepTo s (.start u)
        ({ s with started := s.started + 1, calls := s.calls + 1 }.setCaller u (.pool 0 .create))
  | again (u : Fin (m + 1)) (hu : s.callers u = .outside) (h0 : s.started ≠ 0) :
      StepTo s (.start u)
        ({ s with started := s.started + 1, calls := s.calls + 1 }.setCaller u .test)
  | create (u : Fin (m + 1)) (i : ℕ) (hu : s.callers u = .pool i .create) (hlt : i < n) :
      StepTo s (.create u) ((s.setThread i .created).setCaller u (.pool i .sem))
  | built (u : Fin (m + 1)) (i : ℕ) (hu : s.callers u = .pool i .create) (hge : n ≤ i) :
      StepTo s (.create u) (s.setCaller u .test)
  | post (i : ℕ) (hthread : s.threads i = .created) : StepTo s (.post i) (s.setThread i .running)
  | semReturn (u : Fin (m + 1)) (i : ℕ) (hu : s.callers u = .pool i .sem)
      (hthread : s.threads i = .running ∨ s.threads i = .published) :
      StepTo s (.semReturn u) (s.setCaller u (.pool i .check))
  | loopThere (u : Fin (m + 1)) (i : ℕ) (hu : s.callers u = .pool i .check)
      (hthread : s.threads i = .published) :
      StepTo s (.check u)
        ({ s with loops := s.loops ++ [i + 1] }.setCaller u (.pool (i + 1) .create))
  | waits (u : Fin (m + 1)) (i : ℕ) (hu : s.callers u = .pool i .check)
      (hthread : s.threads i ≠ .published) :
      StepTo s (.check u) (s.setCaller u (.pool i .wait))
  | publish (i : ℕ) (hthread : s.threads i = .running) :
      StepTo s (.publish i)
        { s.setThread i .published with callers := fun u => notify i (s.callers u) }
  | spurious (u : Fin (m + 1)) (i : ℕ) (hu : s.callers u = .pool i .wait) :
      StepTo s (.spurious u) (s.setCaller u (.pool i .check))
  | returns (u : Fin (m + 1)) (hu : s.callers u = .test) (hlisten : s.listenning = true) :
      StepTo s (.test u) (s.setCaller u .outside)
  | opens (u : Fin (m + 1)) (hu : s.callers u = .test) (hlisten : s.listenning = false) :
      StepTo s (.test u) (s.setCaller u .runInLoop)
  | listens (hu : s.callers baseThread = .runInLoop) :
      StepTo s (.runInLoop baseThread) ({ s with listenning := true }.setCaller baseThread .outside)
  | queues (u : Fin (m + 1)) (hu : s.callers u = .runInLoop) (hne : u ≠ baseThread) :
      StepTo s (.runInLoop u) ({ s with pending := s.pending + 1 }.setCaller u .outside)
  | runListen (hbase : s.callers baseThread = .outside) (hpending : 0 < s.pending) :
      StepTo s .runListen { s with pending := s.pending - 1, listenning := true }
  | newConnection (hbase : s.callers baseThread = .outside) (hlisten : s.listenning = true) :
      StepTo s .newConnection
        { s with accepted := s.accepted ++ [s.getNextLoop.1], next := s.getNextLoop.2 }

theorem stepTo_of_step {s t : ServerStart m} {l : Label m} (h : step n s l = some t) :
    StepTo n s l t := by
  cases l with
  | start u =>
    obtain ⟨hu, heq⟩ := Option.ite_none_right_eq_some.1 h
    cases heq
    split_ifs with h0
    · exact .first u hu h0
    · exact .again u hu h0
  | create u =>
    simp only [step] at h
    split at h
    · rename_i i hu
      cases h
      split_ifs with hlt
      · exact .create u i hu hlt
      · exact .built u i hu (Nat.not_lt.1 hlt)
    · cases h
  | post i =>
    obtain ⟨hthread, heq⟩ := Option.ite_none_right_eq_some.1 h
    cases heq
    exact .post i hthread
  | semReturn u =>
    simp only [step] at h
    split at h
    · rename_i i hu
      obtain ⟨hthread, heq⟩ := Option.ite_none_right_eq_some.1 h
      cases heq
      exact .semReturn u i hu hthread
    · cases h
  | check u =>
    simp only [step] at h
    split at h
    · rename_i i hu
      cases h
      split_ifs with hthread
      · exact .loopThere u i hu hthread
      · exact .waits u i hu hthread
    · cases h
  | publish i =>
    obtain ⟨hthread, heq⟩ := Option.ite_none_right_eq_some.1 h
    cases heq
    exact .publish i hthread
  | spurious u =>
    simp only [step] at h
    split at h
    · rename_i i hu
      cases h
      exact .spurious u i hu
    · cases h
  | test u =>
    obtain ⟨hu, heq⟩ := Option.ite_none_right_eq_some.1 h
    cases heq
    split_ifs with hlisten
    · exact .returns u hu hlisten
    · exact .opens u hu (Bool.eq_false_iff.2 hlisten)
  | runInLoop u =>
    obtain ⟨hu, heq⟩ := Option.ite_none_right_eq_some.1 h
    cases heq
    split_ifs with hbase
    · subst hbase
      exact .listens hu
    · exact .queues u hu hbase
  | runListen =>
    obtain ⟨⟨hbase, hpending⟩, heq⟩ := Option.ite_none_right_eq_some.1 h
    cases heq
    exact .runListen hbase hpending
  | newConnection =>
    obtain ⟨⟨hbase, hlisten⟩, heq⟩ := Option.ite_none_right_eq_some.1 h
    cases heq
    exact .newConnection hbase hlisten

/-! ### The count of the calls -/

/-- The steps of the calls under way, of the new threads and of the base loop. -/
def Label.ofStart : Label m → Prop
  | .start _ | .spurious _ | .newConnection => False
  | _ => True

/-- `started_` counts the calls, as far as 32 bits go. -/
def Counted (s : ServerStart m) : Prop := s.started = BitVec.ofNat 32 s.calls

theorem counted_new : (new : ServerStart m).Counted := rfl

variable {n} in
theorem counted_step {s t : ServerStart m} {l : Label m} (hs : s.Counted) (h : StepTo n s l t) :
    t.Counted ∧ s.calls ≤ t.calls ∧ (l.ofStart → t.calls = s.calls) := by
  have hnext : s.started + 1 = BitVec.ofNat 32 (s.calls + 1) := by
    rw [show s.started = BitVec.ofNat 32 s.calls from hs, BitVec.ofNat_add]
    rfl
  cases h with
  | first u hu h0 => exact ⟨hnext, Nat.le_succ _, False.elim⟩
  | again u hu h0 => exact ⟨hnext, Nat.le_succ _, False.elim⟩
  | _ => exact ⟨hs, Nat.le_refl _, fun _ => rfl⟩

/-- In the range of `started_`, the first call is the one that finds zero. -/
theorem Counted.calls_eq_zero {s : ServerStart m} (hs : s.Counted) (h0 : s.started = 0)
    (hlt : s.calls < 2 ^ 32) : s.calls = 0 := by
  have hnat := congrArg BitVec.toNat (hs.symm.trans h0)
  rwa [BitVec.toNat_ofNat, Nat.mod_eq_of_lt hlt] at hnat

theorem Counted.calls_pos {s : ServerStart m} (hs : s.Counted) (h0 : s.started ≠ 0) :
    0 < s.calls := by
  refine Nat.pos_of_ne_zero fun hzero => h0 ?_
  rw [show s.started = BitVec.ofNat 32 s.calls from hs, hzero]
  rfl

/-! ### The pool -/

/-- The caller is in `EventLoopThreadPool::start`. -/
def Caller.inPool : Caller → Bool
  | .pool _ _ => true
  | _ => false

/-- The loops up to `i` run, and no thread behind `i` was made. -/
structure Built (s : ServerStart m) (i : ℕ) : Prop where
  loops : s.loops = (List.range i).map (· + 1)
  published : ∀ j < i, s.threads j = .published
  notStarted : ∀ j, i < j → s.threads j = .notStarted

/-- What the caller at thread `i` knows of it. -/
def Phase.Agrees : Phase → Worker → Prop
  | .create, w => w = .notStarted
  | .sem, w => w ≠ .notStarted
  | .check, w => w = .running ∨ w = .published
  | .wait, w => w = .running

instance (p : Phase) (w : Worker) : Decidable (p.Agrees w) := by
  cases p <;> unfold Phase.Agrees <;> infer_instance

/-- The pool was not started, a thread is starting it, or all its loops run. -/
inductive View (s : ServerStart m) : Prop
  | before (hcalls : s.calls = 0) (houtside : ∀ t, s.callers t = .outside)
      (hbuilt : s.Built 0) (hthread : s.threads 0 = .notStarted)
  | inside (t : Fin (m + 1)) (i : ℕ) (p : Phase) (hcalls : 0 < s.calls)
      (hcaller : s.callers t = .pool i p) (halone : ∀ u, u ≠ t → (s.callers u).inPool = false)
      (hle : i ≤ n) (hlt : p ≠ .create → i < n) (hbuilt : s.Built i)
      (hagrees : p.Agrees (s.threads i))
  | after (hcalls : 0 < s.calls) (hnobody : ∀ t, (s.callers t).inPool = false)
      (hbuilt : s.Built n) (hthread : s.threads n = .notStarted)

theorem view_new : View n (new : ServerStart m) :=
  .before rfl (fun _ => rfl) ⟨rfl, fun j hj => absurd hj (Nat.not_lt_zero j), fun _ _ => rfl⟩ rfl

variable {n} {s t : ServerStart m} {u v : Fin (m + 1)} {i : ℕ} {c : Caller} {w : Worker}

@[simp] theorem setCaller_self : (s.setCaller u c).callers u = c := Function.update_self _ _ _

theorem setCaller_of_ne (h : v ≠ u) : (s.setCaller u c).callers v = s.callers v :=
  Function.update_of_ne h _ _

@[simp] theorem setThread_self : (s.setThread i w).threads i = w := Function.update_self _ _ _

theorem setThread_of_ne {j : ℕ} (h : j ≠ i) : (s.setThread i w).threads j = s.threads j :=
  Function.update_of_ne h _ _

theorem Built.of_eq (h : s.Built i) (hloops : t.loops = s.loops) (hthreads : t.threads = s.threads) :
    t.Built i :=
  ⟨hloops.trans h.loops, fun j hj => (congrFun hthreads j).trans (h.published j hj),
    fun j hj => (congrFun hthreads j).trans (h.notStarted j hj)⟩

/-- A step of thread `i` or of its caller, with the loops in front of it running. -/
theorem Built.setThread (h : s.Built i) : (s.setThread i w).Built i :=
  ⟨h.loops, fun j hj => (setThread_of_ne (Nat.ne_of_lt hj)).trans (h.published j hj),
    fun j hj => (setThread_of_ne (Nat.ne_of_gt hj)).trans (h.notStarted j hj)⟩

/-- What the pool does not look at may change. -/
theorem View.of_eq (hs : View n s) (hcalls : t.calls = 0 ↔ s.calls = 0)
    (hcallers : t.callers = s.callers) (hthreads : t.threads = s.threads)
    (hloops : t.loops = s.loops) : View n t := by
  cases hs with
  | before h0 houtside hbuilt hthread =>
    exact .before (hcalls.2 h0) (fun u => (congrFun hcallers u).trans (houtside u))
      (hbuilt.of_eq hloops hthreads) ((congrFun hthreads 0).trans hthread)
  | inside u i p hpos hcaller halone hle hlt hbuilt hagrees =>
    refine .inside u i p (Nat.pos_of_ne_zero fun h => ?_) (hcallers ▸ hcaller)
      (fun v hv => hcallers ▸ halone v hv) hle hlt (hbuilt.of_eq hloops hthreads)
      (hthreads ▸ hagrees)
    exact hpos.ne' (hcalls.1 h)
  | after hpos hnobody hbuilt hthread =>
    refine .after (Nat.pos_of_ne_zero fun h => ?_) (fun u => hcallers ▸ hnobody u)
      (hbuilt.of_eq hloops hthreads) ((congrFun hthreads n).trans hthread)
    exact hpos.ne' (hcalls.1 h)

/-- A caller outside the pool moves on. -/
theorem View.setCaller (hs : View n s) (hpos : 0 < s.calls) (hu : (s.callers u).inPool = false)
    (hc : c.inPool = false) : View n (s.setCaller u c) := by
  have hinPool : ∀ v, (s.callers v).inPool = false →
      ((s.setCaller u c).callers v).inPool = false := by
    intro v hv
    by_cases hvu : v = u
    · rw [hvu, setCaller_self]
      exact hc
    · rw [setCaller_of_ne hvu]
      exact hv
  cases hs with
  | before h0 => exact absurd h0 hpos.ne'
  | inside v i p hpos hcaller halone hle hlt hbuilt hagrees =>
    have hne : v ≠ u := by
      rintro rfl
      rw [hcaller] at hu
      cases hu
    exact .inside v i p hpos ((setCaller_of_ne hne).trans hcaller)
      (fun w hw => hinPool w (halone w hw)) hle hlt (hbuilt.of_eq rfl rfl) hagrees
  | after hpos hnobody hbuilt hthread =>
    exact .after hpos (fun v => hinPool v (hnobody v)) (hbuilt.of_eq rfl rfl) hthread

/-- The caller in the pool, if there is one, is where the view says. -/
theorem View.pool (hs : View n s) {p : Phase} (hu : s.callers u = .pool i p) :
    0 < s.calls ∧ (∀ v, v ≠ u → (s.callers v).inPool = false) ∧ i ≤ n ∧ (p ≠ .create → i < n) ∧
      s.Built i ∧ p.Agrees (s.threads i) := by
  cases hs with
  | before h0 houtside =>
    rw [houtside u] at hu
    cases hu
  | inside v j q hpos hcaller halone hle hlt hbuilt hagrees =>
    by_cases huv : u = v
    · subst huv
      rw [hcaller] at hu
      cases hu
      exact ⟨hpos, halone, hle, hlt, hbuilt, hagrees⟩
    · have hnot := halone u huv
      rw [hu] at hnot
      cases hnot
  | after hpos hnobody =>
    have hnot := hnobody u
    rw [hu] at hnot
    cases hnot

/-- Somebody who has begun `start()`. -/
theorem View.called (hs : View n s) (hu : s.callers u ≠ .outside) : 0 < s.calls := by
  cases hs with
  | before h0 houtside => exact absurd (houtside u) hu
  | inside _ _ _ hpos => exact hpos
  | after hpos => exact hpos

/-- A thread that was made and has not published its loop is the one that the caller is at. -/
theorem View.thread (hs : View n s) (hne : s.threads i ≠ .notStarted)
    (hne' : s.threads i ≠ .published) : ∃ u p, s.callers u = .pool i p := by
  have hbuilt : ∀ j, s.Built j → s.threads j = .notStarted → False := by
    intro j hj hthread
    rcases Nat.lt_trichotomy i j with hij | rfl | hij
    · exact hne' (hj.published i hij)
    · exact hne hthread
    · exact hne (hj.notStarted i hij)
  cases hs with
  | before h0 houtside hb hthread => exact (hbuilt 0 hb hthread).elim
  | inside u j p hpos hcaller halone hle hlt hb hagrees =>
    rcases Nat.lt_trichotomy i j with hij | rfl | hij
    · exact absurd (hb.published i hij) hne'
    · exact ⟨u, p, hcaller⟩
    · exact absurd (hb.notStarted i hij) hne
  | after hpos hnobody hb hthread => exact (hbuilt n hb hthread).elim

/-- The caller of a thread that does not run yet waits for it. -/
theorem View.created (hs : View n s) (h : s.threads i = .created) :
    ∃ u, s.callers u = .pool i .sem ∧ i < n := by
  obtain ⟨u, p, hu⟩ := hs.thread (by rw [h]; decide) (by rw [h]; decide)
  obtain ⟨-, -, -, hlt, -, hagrees⟩ := hs.pool hu
  rw [h] at hagrees
  cases p with
  | create => cases hagrees
  | sem => exact ⟨u, hu, hlt (by decide)⟩
  | check => rcases hagrees with h | h <;> cases h
  | wait => cases hagrees

/-- The caller of a thread that runs is still there. -/
theorem View.running (hs : View n s) (h : s.threads i = .running) :
    ∃ u p, s.callers u = .pool i p ∧ p ≠ .create ∧ i < n := by
  obtain ⟨u, p, hu⟩ := hs.thread (by rw [h]; decide) (by rw [h]; decide)
  obtain ⟨-, -, -, hlt, -, hagrees⟩ := hs.pool hu
  have hne : p ≠ .create := by
    rintro rfl
    rw [h] at hagrees
    cases hagrees
  exact ⟨u, p, hu, hne, hlt hne⟩

/-- The caller in the pool moves on, and so may its thread. -/
theorem View.advance (hs : View n s) {p q : Phase} (hu : s.callers u = .pool i p) (hlt : i < n)
    (hcaller : t.callers = Function.update s.callers u (.pool i q))
    (hthreads : t.threads = Function.update s.threads i w) (hloops : t.loops = s.loops)
    (hcalls : t.calls = s.calls) (hagrees : q.Agrees w) : View n t := by
  obtain ⟨hpos, halone, -, -, hbuilt, -⟩ := hs.pool hu
  refine .inside u i q (hcalls ▸ hpos) ?_ (fun v hv => ?_) hlt.le (fun _ => hlt)
    ((hbuilt.setThread (w := w)).of_eq hloops hthreads) ?_
  · rw [hcaller]
    exact Function.update_self _ _ _
  · rw [hcaller, Function.update_of_ne hv]
    exact halone v hv
  · rw [hthreads, Function.update_self]
    exact hagrees

/-- `notify_one` finds the caller that waits, or nobody. -/
theorem notify_callers (hs : View n s) {p : Phase} (hu : s.callers u = .pool i p) :
    (fun v => notify i (s.callers v)) =
      Function.update s.callers u (.pool i (if p = .wait then .check else p)) := by
  obtain ⟨-, halone, -⟩ := hs.pool hu
  funext v
  by_cases hv : v = u
  · rw [hv, Function.update_self, hu]
    cases p <;> simp [notify]
  · rw [Function.update_of_ne hv]
    have hnot := halone v hv
    cases hcaller : s.callers v with
    | pool j q =>
      rw [hcaller] at hnot
      cases hnot
    | outside => rfl
    | test => rfl
    | runInLoop => rfl

theorem view_step (hcount : s.Counted) (hs : View n s) {l : Label m} (h : StepTo n s l t)
    (hle : t.calls ≤ 2 ^ 32) : View n t := by
  cases h with
  | first u hu h0 =>
    have hzero : s.calls = 0 := hcount.calls_eq_zero h0 (Nat.lt_of_succ_le hle)
    cases hs with
    | before _ hall hbuilt hthread =>
      refine .inside u 0 .create (Nat.succ_pos _) setCaller_self (fun v hv => ?_) (Nat.zero_le n)
        (fun hne => absurd rfl hne) (hbuilt.of_eq rfl rfl) hthread
      rw [setCaller_of_ne hv]
      exact congrArg Caller.inPool (hall v)
    | inside _ _ _ hpos => exact absurd hzero hpos.ne'
    | after hpos => exact absurd hzero hpos.ne'
  | again u hu h0 =>
    have hgrow : View n { s with started := s.started + 1, calls := s.calls + 1 } :=
      hs.of_eq (iff_of_false (Nat.succ_ne_zero _) (hcount.calls_pos h0).ne') rfl rfl rfl
    exact hgrow.setCaller (Nat.succ_pos _) (congrArg Caller.inPool hu) rfl
  | create u i hu hlt => exact hs.advance hu hlt rfl rfl rfl rfl (by decide)
  | built u i hu hge =>
    obtain ⟨hpos, halone, hle, -, hbuilt, hagrees⟩ := hs.pool hu
    obtain rfl : i = n := Nat.le_antisymm hle hge
    refine .after hpos (fun v => ?_) (hbuilt.of_eq rfl rfl) hagrees
    by_cases hv : v = u
    · rw [hv, setCaller_self]
      rfl
    · rw [setCaller_of_ne hv]
      exact halone v hv
  | post i hthread =>
    obtain ⟨u, hu, hlt⟩ := hs.created hthread
    exact hs.advance hu hlt (by rw [← hu, Function.update_eq_self]; rfl) rfl rfl rfl (by decide)
  | semReturn u i hu hthread =>
    obtain ⟨-, -, -, hlt, -, -⟩ := hs.pool hu
    exact hs.advance hu (hlt (by decide)) rfl (Function.update_eq_self _ _).symm rfl rfl hthread
  | loopThere u i hu hthread =>
    obtain ⟨hpos, halone, -, hlt, hbuilt, -⟩ := hs.pool hu
    refine .inside u (i + 1) .create hpos setCaller_self (fun v hv => ?_) (hlt (by decide))
      (fun hne => absurd rfl hne) ⟨?_, fun j hj => ?_, fun j hj => ?_⟩ ?_
    · rw [setCaller_of_ne hv]
      exact halone v hv
    · show s.loops ++ [i + 1] = _
      rw [hbuilt.loops, List.range_succ, List.map_append]
      rfl
    · rcases Nat.lt_succ_iff_lt_or_eq.1 hj with hlt | rfl
      · exact hbuilt.published j hlt
      · exact hthread
    · exact hbuilt.notStarted j (by omega)
    · exact hbuilt.notStarted (i + 1) (Nat.lt_succ_self i)
  | waits u i hu hthread =>
    obtain ⟨-, -, -, hlt, -, hagrees⟩ := hs.pool hu
    exact hs.advance hu (hlt (by decide)) rfl (Function.update_eq_self _ _).symm rfl rfl
      (hagrees.resolve_right hthread)
  | publish i hthread =>
    obtain ⟨u, p, hu, hne, hlt⟩ := hs.running hthread
    refine hs.advance hu hlt (notify_callers hs hu) rfl rfl rfl ?_
    cases p with
    | create => exact absurd rfl hne
    | sem => exact fun h => by cases h
    | check => exact .inr rfl
    | wait => exact .inr rfl
  | spurious u i hu =>
    obtain ⟨-, -, -, hlt, -, hagrees⟩ := hs.pool hu
    exact hs.advance hu (hlt (by decide)) rfl (Function.update_eq_self _ _).symm rfl rfl
      (.inl hagrees)
  | returns u hu hlisten =>
    exact hs.setCaller (hs.called (u := u) (by rw [hu]; decide)) (by rw [hu]; rfl) rfl
  | opens u hu hlisten =>
    exact hs.setCaller (hs.called (u := u) (by rw [hu]; decide)) (by rw [hu]; rfl) rfl
  | listens hu =>
    have hpos : 0 < s.calls := hs.called (u := baseThread) (by rw [hu]; decide)
    exact (hs.of_eq (t := { s with listenning := true }) Iff.rfl rfl rfl rfl).setCaller hpos
      (congrArg Caller.inPool hu) rfl
  | queues u hu hne =>
    have hpos : 0 < s.calls := hs.called (u := u) (by rw [hu]; decide)
    exact (hs.of_eq (t := { s with pending := s.pending + 1 }) Iff.rfl rfl rfl rfl).setCaller hpos
      (congrArg Caller.inPool hu) rfl
  | runListen => exact hs.of_eq Iff.rfl rfl rfl rfl
  | newConnection => exact hs.of_eq Iff.rfl rfl rfl rfl

/-! ### No connection before the loops -/

/-- No thread passes the test of `listenning()` while another one is starting the pool. -/
def Ordered (s : ServerStart m) : Label m → Prop
  | .test _ => ∀ u, (s.callers u).inPool = false
  | _ => True

instance (s : ServerStart m) (l : Label m) : Decidable (s.Ordered l) := by
  cases l <;> unfold Ordered <;> infer_instance

/-- Somebody is about to listen. -/
def Opening (s : ServerStart m) : Prop :=
  s.listenning = true ∨ 0 < s.pending ∨ ∃ u, s.callers u = .runInLoop

/-- The pool was started by a call that has gone on. -/
def PoolStarted (s : ServerStart m) : Prop := 0 < s.calls ∧ ∀ u, (s.callers u).inPool = false

structure Safe (n : ℕ) (s : ServerStart m) : Prop where
  view : View n s
  opening : s.Opening → s.PoolStarted
  listenning : s.accepted ≠ [] → s.listenning = true
  accepted : s.accepted = (List.range s.accepted.length).map (TcpServer.loopOf n)
  next : n ≠ 0 → s.next = s.accepted.length % n

theorem safe_new : Safe n (new : ServerStart m) where
  view := view_new n
  opening h := by
    rcases h with h | h | ⟨u, h⟩
    · cases h
    · exact absurd h (Nat.lt_irrefl 0)
    · cases h
  listenning h := absurd rfl h
  accepted := rfl
  next _ := (Nat.zero_mod n).symm

theorem not_poolStarted {p : Phase} (hu : s.callers u = .pool i p) : ¬ s.PoolStarted := by
  intro hs
  have hnot := hs.2 u
  rw [hu] at hnot
  cases hnot

theorem View.built (hs : View n s) (h : s.PoolStarted) : s.Built n := by
  cases hs with
  | before h0 => exact absurd h0 h.1.ne'
  | inside u i p hpos hcaller => exact absurd h (not_poolStarted hcaller)
  | after hpos hnobody hbuilt => exact hbuilt

/-- A caller that moves on, not to `runInLoop`, opens nothing. -/
theorem opening_setCaller (hc : c ≠ .runInLoop) (h : (s.setCaller u c).Opening) : s.Opening := by
  rcases h with h | h | ⟨v, h⟩
  · exact .inl h
  · exact .inr (.inl h)
  · by_cases hv : v = u
    · rw [hv, setCaller_self] at h
      exact absurd h hc
    · rw [setCaller_of_ne hv] at h
      exact .inr (.inr ⟨v, h⟩)

theorem PoolStarted.setCaller (hs : s.PoolStarted) (hc : c.inPool = false) :
    (s.setCaller u c).PoolStarted := by
  refine ⟨hs.1, fun v => ?_⟩
  by_cases hv : v = u
  · rw [hv, setCaller_self]
    exact hc
  · rw [setCaller_of_ne hv]
    exact hs.2 v

/-- **Once somebody is about to listen, the pool stays as it is.** -/
theorem opening_step (hcount : s.Counted) (hs : Safe n s) {l : Label m} (hl : s.Ordered l)
    (h : StepTo n s l t) (hle : t.calls ≤ 2 ^ 32) (hopening : t.Opening) : t.PoolStarted := by
  cases h with
  | first u hu h0 =>
    have hold : s.Opening := opening_setCaller
      (s := { s with started := s.started + 1, calls := s.calls + 1 }) (by simp) hopening
    exact absurd (hcount.calls_eq_zero h0 (Nat.lt_of_succ_le hle)) (hs.opening hold).1.ne'
  | again u hu h0 =>
    have hold : s.Opening := opening_setCaller
      (s := { s with started := s.started + 1, calls := s.calls + 1 }) (by simp) hopening
    exact PoolStarted.setCaller (s := { s with started := s.started + 1, calls := s.calls + 1 })
      ⟨Nat.succ_pos _, (hs.opening hold).2⟩ rfl
  | create u i hu hlt =>
    have hold : s.Opening := opening_setCaller (s := s.setThread i .created) (by simp) hopening
    exact absurd (hs.opening hold) (not_poolStarted hu)
  | built u i hu hge =>
    exact absurd (hs.opening (opening_setCaller (by simp) hopening)) (not_poolStarted hu)
  | post i hthread => exact hs.opening hopening
  | semReturn u i hu hthread =>
    exact absurd (hs.opening (opening_setCaller (by simp) hopening)) (not_poolStarted hu)
  | loopThere u i hu hthread =>
    have hold : s.Opening :=
      opening_setCaller (s := { s with loops := s.loops ++ [i + 1] }) (by simp) hopening
    exact absurd (hs.opening hold) (not_poolStarted hu)
  | waits u i hu hthread =>
    exact absurd (hs.opening (opening_setCaller (by simp) hopening)) (not_poolStarted hu)
  | publish i hthread =>
    obtain ⟨u, p, hu, -, -⟩ := hs.view.running hthread
    have hold : s.Opening := by
      rcases hopening with h | h | ⟨v, h⟩
      · exact .inl h
      · exact .inr (.inl h)
      · refine opening_setCaller (u := u) (c := .pool i (if p = .wait then .check else p)) (by simp)
          (.inr (.inr ⟨v, ?_⟩))
        exact (congrFun (notify_callers hs.view hu) v).symm.trans h
    exact absurd (hs.opening hold) (not_poolStarted hu)
  | spurious u i hu =>
    exact absurd (hs.opening (opening_setCaller (by simp) hopening)) (not_poolStarted hu)
  | returns u hu hlisten =>
    exact PoolStarted.setCaller ⟨hs.view.called (u := u) (by rw [hu]; decide), hl⟩ rfl
  | opens u hu hlisten =>
    exact PoolStarted.setCaller ⟨hs.view.called (u := u) (by rw [hu]; decide), hl⟩ rfl
  | listens hu =>
    exact PoolStarted.setCaller (s := { s with listenning := true })
      (hs.opening (.inr (.inr ⟨baseThread, hu⟩))) rfl
  | queues u hu hne =>
    exact PoolStarted.setCaller (s := { s with pending := s.pending + 1 })
      (hs.opening (.inr (.inr ⟨u, hu⟩))) rfl
  | runListen hbase hpending => exact hs.opening (.inr (.inl hpending))
  | newConnection hbase hlisten => exact hs.opening hopening

/-- A connection goes to the next loop. -/
theorem Built.getNextLoop (hs : s.Built n) (hnext : n ≠ 0 → s.next = s.accepted.length % n) :
    s.getNextLoop.1 = TcpServer.loopOf n s.accepted.length ∧
      (n ≠ 0 → s.getNextLoop.2 = (s.accepted.length + 1) % n) := by
  have hlength : s.loops.length = n := by rw [hs.loops, List.length_map, List.length_range]
  by_cases hn : n = 0
  · have hnone : s.loops[s.next]? = none := by
      rw [List.getElem?_eq_none_iff, hlength, hn]
      exact Nat.zero_le _
    refine ⟨?_, fun h => absurd hn h⟩
    rw [ServerStart.getNextLoop, hnone, TcpServer.loopOf, if_pos hn]
  · have hlt : s.accepted.length % n < n := Nat.mod_lt _ (Nat.pos_of_ne_zero hn)
    have hsome : s.loops[s.next]? = some (s.accepted.length % n + 1) := by
      rw [hs.loops, hnext hn, List.getElem?_map, List.getElem?_range hlt]
      rfl
    rw [ServerStart.getNextLoop, hsome, TcpServer.loopOf, if_neg hn]
    refine ⟨rfl, fun _ => ?_⟩
    simp only [hlength, hnext hn]
    exact TcpServer.next_mod hn _

/-- **Connections are accepted by `newConnection` only**, when the server listens. -/
theorem accepted_step {l : Label m} (h : StepTo n s l t) :
    (t.accepted = s.accepted ∧ t.next = s.next ∧ (s.listenning = true → t.listenning = true)) ∨
      (s.listenning = true ∧ t.listenning = true ∧
        t.accepted = s.accepted ++ [s.getNextLoop.1] ∧ t.next = s.getNextLoop.2) := by
  cases h with
  | newConnection hbase hlisten => exact .inr ⟨hlisten, hlisten, rfl, rfl⟩
  | listens hu => exact .inl ⟨rfl, rfl, fun _ => rfl⟩
  | runListen hbase hpending => exact .inl ⟨rfl, rfl, fun _ => rfl⟩
  | _ => exact .inl ⟨rfl, rfl, id⟩

theorem safe_step (hcount : s.Counted) (hs : Safe n s) {l : Label m} (hl : s.Ordered l)
    (h : StepTo n s l t) (hle : t.calls ≤ 2 ^ 32) : Safe n t := by
  refine ⟨view_step hcount hs.view h hle, opening_step hcount hs hl h hle, ?_, ?_, ?_⟩
  all_goals rcases accepted_step h with ⟨haccepted, hnext, hmono⟩ |
    ⟨hlisten, hlisten', haccepted, hnext⟩
  · exact fun hne => hmono (hs.listenning (haccepted ▸ hne))
  · exact fun _ => hlisten'
  · rw [haccepted]
    exact hs.accepted
  · have hbuilt := hs.view.built (hs.opening (.inl hlisten))
    rw [haccepted, (hbuilt.getNextLoop hs.next).1, List.length_append, List.length_singleton,
      List.range_succ, List.map_append, ← hs.accepted]
    rfl
  · rw [haccepted, hnext]
    exact hs.next
  · have hbuilt := hs.view.built (hs.opening (.inl hlisten))
    rw [haccepted, hnext, List.length_append, List.length_singleton]
    exact (hbuilt.getNextLoop hs.next).2

/-- **The server starts in order.**  Any threads may call `start()`, up to `2 ^ 32` times together,
as long as none of them passes the test of `listenning()` while another one is starting the pool.
Then the server listens, and accepts connections, only when all `n` loops run and are in `loops_`,
and the connections go round the loops from the first one on. -/
theorem start_orderly {ls : List (Label m)} (h : run (step n) (new : ServerStart m) ls = some s)
    (hcalls : s.calls ≤ 2 ^ 32) (hls : Along (step n) Ordered new ls) :
    (s.listenning = true ∨ s.accepted ≠ [] → s.loops = (List.range n).map (· + 1) ∧
      ∀ i < n, s.threads i = .published) ∧
    s.accepted = (List.range s.accepted.length).map (TcpServer.loopOf n) := by
  have hkept : s.Counted ∧ (s.calls ≤ 2 ^ 32 → Safe n s) := by
    refine run_preserves_along (P := fun u : ServerStart m => u.Counted ∧
      (u.calls ≤ 2 ^ 32 → Safe n u)) ?_ ⟨counted_new, fun _ => safe_new⟩ hls h
    rintro u l v ⟨hcount, hsafe⟩ hl hstep
    have hto := stepTo_of_step n hstep
    obtain ⟨hcount', hmono, -⟩ := counted_step hcount hto
    exact ⟨hcount', fun hle => safe_step hcount (hsafe (hmono.trans hle)) hl hto hle⟩
  have hs : Safe n s := hkept.2 hcalls
  refine ⟨fun hopen => ?_, hs.accepted⟩
  have hbuilt := hs.view.built (hs.opening (.inl (hopen.elim id hs.listenning)))
  exact ⟨hbuilt.loops, hbuilt.published⟩

/-- Thread 3 starts a server with two loops, of which the base loop accepts three connections. -/
def startTwo : List (Label 3) :=
  [.start 3, .create 3, .post 0, .semReturn 3, .check 3, .publish 0, .check 3, .create 3,
    .post 1, .publish 1, .semReturn 3, .check 3, .create 3, .test 3, .runInLoop 3, .runListen,
    .newConnection, .newConnection, .newConnection]

theorem start_orderly_two :
    ∃ s, run (step 2) (new : ServerStart 3) startTwo = some s ∧ s.accepted = [1, 2, 1] ∧
      s.loops = [1, 2] := by
  have hrun : run (step 2) (new : ServerStart 3) startTwo = some _ := rfl
  refine ⟨_, hrun, rfl, ?_⟩
  exact ((start_orderly hrun (by decide) (by decide)).1 (.inr (by decide))).1

/-- A second call passes the test while the first one is starting the pool: the base loop accepts
a connection when there is no I/O loop yet, and keeps it. -/
theorem start_overlapping :
    ∃ s, run (step 1) (new : ServerStart 3)
        [.start 3, .create 3, .start 0, .test 0, .runInLoop 0, .newConnection] = some s ∧
      s.accepted = [baseLoop] ∧ s.loops = [] :=
  ⟨_, rfl, rfl, rfl⟩

/-! ### The calls return -/

/-- A call of `start()` has been followed by `listen`, or will be. -/
def Listens (s : ServerStart m) : Prop :=
  0 < s.calls → s.listenning = true ∨ 0 < s.pending ∨ ∃ u, s.callers u ≠ .outside

/-- What the calls need to come to their end, as long as `started_` has not come round. -/
structure Live (n : ℕ) (s : ServerStart m) : Prop where
  counted : s.Counted
  listens : s.Listens
  view : s.calls ≤ 2 ^ 32 → View n s

end ServerStart

end TinyNetwork
