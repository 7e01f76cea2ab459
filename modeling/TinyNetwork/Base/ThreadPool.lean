import TinyNetwork.Lib.Run
import Mathlib.Logic.Function.Basic

/-!
# `class ThreadPool` (src/base/ThreadPool.h, src/base/ThreadPool.cpp)

The pool, its worker threads, the threads that call `addTask` and `stop()`, and the owner, who calls
`start()` and runs `~ThreadPool`.  A label is one step of one thread; what a thread does under
`mutex_`, and every load or store of `running_`, is a single step.

A worker goes `test` → `taking` → `executing` → `test` → …: it tests `running_`, takes a task with
the mutex held, and executes it.  With an empty queue it waits on `cond_`; the wait may end at any
time, so it is the step `take` that changes nothing.  A task that is the empty `std::function` is
taken and not called.  `threadInitCallback_` and exceptions of the tasks are left out.

The lists behind `workers` are history.  A task is named by its place among all tasks accepted;
`wanted` are the tasks whose `addTask` had returned when `stop()` was first called.
-/

namespace TinyNetwork

open Lts

/-- A task accepted by the pool; is it a function that can be called? -/
structure ThreadFunction where
  id : ℕ
  callable : Bool
  deriving DecidableEq

namespace ThreadPool

inductive Worker
  | test
  | taking
  | executing (task : ThreadFunction)
  | done
  deriving DecidableEq

/-- Where a thread is in `addTask`: in front of the lock, or behind its `push_back`. -/
inductive Adder
  | outside
  | adding (callable : Bool)
  | added (task : ThreadFunction)
  deriving DecidableEq

/-- Where the owner is: before `start()`, in its loop, behind it; in the destructor behind its test
of `running_`, in the joins, and at the end. -/
inductive Owner
  | fresh
  | starting
  | started
  | stopping
  | joining
  | destroyed
  deriving DecidableEq

inductive Label
  | start
  | spawn
  | startReturn
  | addTask (t : ℕ) (callable : Bool)
  | push (t : ℕ)
  | addReturn (t : ℕ)
  | stopCall (t : ℕ)
  | stop (t : ℕ)
  | destroy
  | destroyStop
  | join
  | test (i : ℕ)
  | take (i : ℕ)
  | execute (i : ℕ)

end ThreadPool

structure ThreadPool where
  threadSize : ℕ
  running : Bool := false
  queue : List ThreadFunction := []
  owner : ThreadPool.Owner := .fresh
  adders : ℕ → ThreadPool.Adder := fun _ => .outside
  stopping : ℕ → Bool := fun _ => false
  workers : List ThreadPool.Worker := []
  accepted : List ThreadFunction := []
  pushed : List ThreadFunction := []
  returned : List ThreadFunction := []
  taken : List ThreadFunction := []
  executed : List ThreadFunction := []
  stopCalled : Bool := false
  wanted : List ThreadFunction := []

namespace ThreadPool

def new (threadSize : ℕ) : ThreadPool := { threadSize := threadSize }

/-- The next task. -/
def next (s : ThreadPool) (callable : Bool) : ThreadFunction := ⟨s.accepted.length, callable⟩

/-- `addTask` without workers: the caller runs the task; the empty function throws. -/
def runDirectly (s : ThreadPool) (callable : Bool) : ThreadPool :=
  if callable then
    { s with
      accepted := s.accepted ++ [s.next callable]
      executed := s.executed ++ [s.next callable]
      returned := s.returned ++ [s.next callable] }
  else s

/-- `stop()` is called. -/
def called (s : ThreadPool) : ThreadPool :=
  if s.stopCalled then s else { s with stopCalled := true, wanted := s.returned }

@[simp] theorem runDirectly_queue (s : ThreadPool) (callable : Bool) :
    (s.runDirectly callable).queue = s.queue := by
  unfold runDirectly
  split_ifs <;> rfl

@[simp] theorem runDirectly_workers (s : ThreadPool) (callable : Bool) :
    (s.runDirectly callable).workers = s.workers := by
  unfold runDirectly
  split_ifs <;> rfl

@[simp] theorem runDirectly_running (s : ThreadPool) (callable : Bool) :
    (s.runDirectly callable).running = s.running := by
  unfold runDirectly
  split_ifs <;> rfl

@[simp] theorem called_queue (s : ThreadPool) : s.called.queue = s.queue := by
  unfold called
  split_ifs <;> rfl

@[simp] theorem called_workers (s : ThreadPool) : s.called.workers = s.workers := by
  unfold called
  split_ifs <;> rfl

@[simp] theorem called_running (s : ThreadPool) : s.called.running = s.running := by
  unfold called
  split_ifs <;> rfl

def setWorker (s : ThreadPool) (i : ℕ) (w : Worker) : ThreadPool :=
  { s with workers := s.workers.set i w }

/-- A worker holds the mutex: it takes a task, leaves, or waits on. -/
def take (s : ThreadPool) (i : ℕ) : ThreadPool :=
  match s.queue with
  | task :: rest =>
    { s with queue := rest, taken := s.taken ++ [task] }.setWorker i (.executing task)
  | [] => if s.running then s else s.setWorker i .done

/-- A worker calls its task. -/
def execute (s : ThreadPool) (i : ℕ) (task : ThreadFunction) : ThreadPool :=
  { s with executed := if task.callable then s.executed ++ [task] else s.executed }.setWorker i .test

def step (s : ThreadPool) : Label → Option ThreadPool
  | .start =>
    if s.owner = .fresh then some { s with running := true, owner := .starting } else none
  | .spawn =>
    if s.owner = .starting ∧ s.workers.length < s.threadSize then
      some { s with workers := s.workers ++ [.test] }
    else none
  | .startReturn =>
    if s.owner = .starting ∧ s.workers.length = s.threadSize then some { s with owner := .started }
    else none
  | .addTask t callable =>
    if s.adders t = .outside then
      some (if s.workers = [] then s.runDirectly callable
        else { s with adders := Function.update s.adders t (.adding callable) })
    else none
  | .push t =>
    match s.adders t with
    | .adding callable =>
      some { s with
        queue := s.queue ++ [s.next callable]
        accepted := s.accepted ++ [s.next callable]
        pushed := s.pushed ++ [s.next callable]
        adders := Function.update s.adders t (.added (s.next callable)) }
    | _ => none
  | .addReturn t =>
    match s.adders t with
    | .added task =>
      some { s with
        returned := s.returned ++ [task]
        adders := Function.update s.adders t .outside }
    | _ => none
  | .stopCall t =>
    if s.stopping t = false then
      some { s.called with stopping := Function.update s.stopping t true }
    else none
  | .stop t =>
    if s.stopping t = true then
      some { s with running := false, stopping := Function.update s.stopping t false }
    else none
  | .destroy =>
    if s.owner = .fresh ∨ s.owner = .started then
      some (if s.running then { s.called with owner := .stopping } else { s with owner := .joining })
    else none
  | .destroyStop =>
    if s.owner = .stopping then some { s with running := false, owner := .joining } else none
  | .join =>
    if s.owner = .joining ∧ ∀ w ∈ s.workers, w = .done then some { s with owner := .destroyed }
    else none
  | .test i =>
    if s.workers[i]? = some .test then
      some (s.setWorker i (if s.running then .taking else .done))
    else none
  | .take i => if s.workers[i]? = some .taking then some (s.take i) else none
  | .execute i =>
    match s.workers[i]? with
    | some (.executing task) => some (s.execute i task)
    | _ => none

/-- The workers that have tested `running_` and not taken a task yet. -/
def takers (s : ThreadPool) : ℕ := s.workers.count .taking

/-- What a step does, label by label. -/
inductive StepTo (s : ThreadPool) : Label → ThreadPool → Prop
  | start (howner : s.owner = .fresh) :
      StepTo s .start { s with running := true, owner := .starting }
  | spawn (howner : s.owner = .starting) :
      StepTo s .spawn { s with workers := s.workers ++ [.test] }
  | startReturn (howner : s.owner = .starting) :
      StepTo s .startReturn { s with owner := .started }
  | addDirectly (t : ℕ) (callable : Bool) (hworkers : s.workers = []) :
      StepTo s (.addTask t callable) (s.runDirectly callable)
  | addTask (t : ℕ) (callable : Bool) (hadder : s.adders t = .outside) (hworkers : s.workers ≠ []) :
      StepTo s (.addTask t callable)
        { s with adders := Function.update s.adders t (.adding callable) }
  | push (t : ℕ) (callable : Bool) (hadder : s.adders t = .adding callable) :
      StepTo s (.push t) { s with
        queue := s.queue ++ [s.next callable]
        accepted := s.accepted ++ [s.next callable]
        pushed := s.pushed ++ [s.next callable]
        adders := Function.update s.adders t (.added (s.next callable)) }
  | addReturn (t : ℕ) (task : ThreadFunction) (hadder : s.adders t = .added task) :
      StepTo s (.addReturn t) { s with
        returned := s.returned ++ [task]
        adders := Function.update s.adders t .outside }
  | stopCall (t : ℕ) :
      StepTo s (.stopCall t) { s.called with stopping := Function.update s.stopping t true }
  | stop (t : ℕ) (hstopping : s.stopping t = true) :
      StepTo s (.stop t)
        { s with running := false, stopping := Function.update s.stopping t false }
  | destroyRunning (howner : s.owner = .fresh ∨ s.owner = .started) (hrunning : s.running = true) :
      StepTo s .destroy { s.called with owner := .stopping }
  | destroyStopped (howner : s.owner = .fresh ∨ s.owner = .started) (hrunning : s.running = false) :
      StepTo s .destroy { s with owner := .joining }
  | destroyStop (howner : s.owner = .stopping) :
      StepTo s .destroyStop { s with running := false, owner := .joining }
  | join (howner : s.owner = .joining) (hdone : ∀ w ∈ s.workers, w = .done) :
      StepTo s .join { s with owner := .destroyed }
  | test (i : ℕ) (hworker : s.workers[i]? = some .test) :
      StepTo s (.test i) (s.setWorker i (if s.running then .taking else .done))
  | take (i : ℕ) (task : ThreadFunction) (rest : List ThreadFunction)
      (hworker : s.workers[i]? = some .taking) (hqueue : s.queue = task :: rest) :
      StepTo s (.take i)
        ({ s with queue := rest, taken := s.taken ++ [task] }.setWorker i (.executing task))
  | wait (i : ℕ) (hrunning : s.running = true) : StepTo s (.take i) s
  | leave (i : ℕ) (hworker : s.workers[i]? = some .taking) (hqueue : s.queue = [])
      (hrunning : s.running = false) : StepTo s (.take i) (s.setWorker i .done)
  | execute (i : ℕ) (task : ThreadFunction) (hworker : s.workers[i]? = some (.executing task)) :
      StepTo s (.execute i) (s.execute i task)

/-- The inversion of `step`. -/
theorem stepTo_of_step {s t : ThreadPool} {l : Label} (h : step s l = some t) : StepTo s l t := by
  cases l with
  | start =>
    simp only [step] at h
    split_ifs at h with hc
    cases h
    exact .start hc
  | spawn =>
    simp only [step] at h
    split_ifs at h with hc
    cases h
    exact .spawn hc.1
  | startReturn =>
    simp only [step] at h
    split_ifs at h with hc
    cases h
    exact .startReturn hc.1
  | addTask t callable =>
    simp only [step] at h
    split_ifs at h with hc hworkers
    · cases h
      exact .addDirectly t callable hworkers
    · cases h
      exact .addTask t callable hc hworkers
  | push t =>
    simp only [step] at h
    split at h
    · rename_i callable hadder
      cases h
      exact .push t callable hadder
    · cases h
  | addReturn t =>
    simp only [step] at h
    split at h
    · rename_i task hadder
      cases h
      exact .addReturn t task hadder
    · cases h
  | stopCall t =>
    simp only [step] at h
    split_ifs at h
    cases h
    exact .stopCall t
  | stop t =>
    simp only [step] at h
    split_ifs at h with hc
    cases h
    exact .stop t hc
  | destroy =>
    simp only [step] at h
    split_ifs at h with hc hrunning
    · cases h
      exact .destroyRunning hc hrunning
    · cases h
      exact .destroyStopped hc (Bool.not_eq_true _ ▸ hrunning)
  | destroyStop =>
    simp only [step] at h
    split_ifs at h with hc
    cases h
    exact .destroyStop hc
  | join =>
    simp only [step] at h
    split_ifs at h with hc
    cases h
    exact .join hc.1 hc.2
  | test i =>
    simp only [step] at h
    split_ifs at h with hc
    · cases h
      have hto := StepTo.test i hc
      rwa [if_pos ‹_›] at hto
    · cases h
      have hto := StepTo.test i hc
      rwa [if_neg ‹_›] at hto
  | take i =>
    simp only [step] at h
    split_ifs at h with hc
    cases h
    unfold ThreadPool.take
    split
    · rename_i task rest hqueue
      exact .take i task rest hc hqueue
    · rename_i hqueue
      split_ifs with hrunning
      · exact .wait i hrunning
      · exact .leave i hc hqueue (Bool.not_eq_true _ ▸ hrunning)
  | execute i =>
    simp only [step] at h
    split at h
    · rename_i task hworker
      cases h
      exact .execute i task hworker
    · cases h

end ThreadPool

end TinyNetwork
