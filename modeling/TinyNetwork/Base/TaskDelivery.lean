import TinyNetwork.Base.ThreadPool
import Mathlib.Data.List.Count
import Mathlib.Data.List.Nodup
import Mathlib.Data.List.Range

/-!
# Are the tasks executed?

Tasks leave `queue_` in the order in which they were pushed, and none is executed twice (`Books`).
After `stop()` a worker takes one more task if it had already tested `running_`, and then leaves;
so of the queue only as many tasks are executed as there are such workers.

`executed_by_join_iff`: when `~ThreadPool` has joined its workers, the tasks added before `stop()`
have all been executed exactly if the queue did not hold more of them when `running_` was cleared.
-/

namespace TinyNetwork

open Lts

namespace ThreadPool

/-- The tasks whose `addTask` returned before `stop()` was called. -/
def early (s : ThreadPool) : List ThreadFunction := if s.stopCalled then s.wanted else s.returned

/-- Every early task in the queue is so far in front that a worker is bound to take it. -/
def Drains (s : ThreadPool) : Prop :=
  ∀ x ∈ s.early, x.callable = true → x ∈ s.queue → x ∈ s.queue.take s.takers

/-- `running_` is cleared only when the workers will still take every early task. -/
def StopsDrained (s : ThreadPool) : Label → Prop
  | .stop _ => s.running = true → s.Drains
  | .destroyStop => s.running = true → s.Drains
  | _ => True

/-- Every early task that can be called has been executed once. -/
def EarlyExecuted (s : ThreadPool) : Prop :=
  ∀ x ∈ s.early, x.callable = true → s.executed.count x = 1

/-! ### The books -/

/-- Where the tasks are. -/
structure Books (s : ThreadPool) : Prop where
  fifo : s.taken ++ s.queue = s.pushed
  numbered : s.accepted.map ThreadFunction.id = List.range s.accepted.length
  pushed : s.pushed.Sublist s.accepted
  each : ∀ x, x.callable = true →
    s.executed.count x + s.workers.count (.executing x) + s.queue.count x = s.accepted.count x
  added : ∀ t x, s.adders t = .added x → x ∈ s.accepted
  returned : ∀ x ∈ s.returned, x ∈ s.accepted
  wanted : ∀ x ∈ s.wanted, x ∈ s.accepted

theorem Books.accepted_nodup {s : ThreadPool} (hs : s.Books) : s.accepted.Nodup := by
  apply List.Nodup.of_map ThreadFunction.id
  rw [hs.numbered]
  exact List.nodup_range

theorem Books.queue_nodup {s : ThreadPool} (hs : s.Books) : s.queue.Nodup := by
  have hpushed : s.pushed.Nodup := hs.accepted_nodup.sublist hs.pushed
  rw [← hs.fifo] at hpushed
  exact (List.nodup_append.1 hpushed).2.1

/-- A task is accepted under a new number. -/
theorem Books.next_notMem {s : ThreadPool} (hs : s.Books) (callable : Bool) :
    s.next callable ∉ s.accepted := by
  intro hmem
  have hid : s.accepted.length ∈ s.accepted.map ThreadFunction.id := List.mem_map_of_mem hmem
  rw [hs.numbered, List.mem_range] at hid
  exact Nat.lt_irrefl _ hid

theorem Books.early_accepted {s : ThreadPool} (hs : s.Books) {x : ThreadFunction}
    (hx : x ∈ s.early) : x ∈ s.accepted := by
  unfold early at hx
  split_ifs at hx
  · exact hs.wanted x hx
  · exact hs.returned x hx

theorem numbered_next {s : ThreadPool} (hs : s.Books) (callable : Bool) :
    (s.accepted ++ [s.next callable]).map ThreadFunction.id =
      List.range (s.accepted ++ [s.next callable]).length := by
  rw [List.map_append, hs.numbered, List.length_append, List.length_singleton, List.range_succ]
  rfl

/-- Who stands behind its `push_back` after one thread has moved to `a`. -/
theorem added_of_update {adders : ℕ → Adder} {t u : ℕ} {a : Adder} {x : ThreadFunction}
    (h : Function.update adders t a u = .added x) : a = .added x ∨ adders u = .added x := by
  by_cases hu : u = t
  · subst hu
    rw [Function.update_self] at h
    exact .inl h
  · rw [Function.update_of_ne hu] at h
    exact .inr h

/-- Replacing one element of a list moves one count. -/
theorem count_set_add {α : Type*} [DecidableEq α] {l : List α} {i : ℕ} {v : α} (h : l[i]? = some v)
    (w a : α) :
    (l.set i w).count a + (if v = a then 1 else 0) = l.count a + (if w = a then 1 else 0) := by
  obtain ⟨hi, hget⟩ := List.getElem?_eq_some_iff.1 h
  rw [List.count_set hi, hget]
  simp only [beq_iff_eq]
  by_cases hva : v = a
  · subst hva
    have hpos : 0 < l.count v := List.count_pos_iff.2 (hget ▸ List.getElem_mem hi)
    rw [if_pos rfl]
    omega
  · rw [if_neg hva]
    omega

/-- Replacing a worker that holds no task by another one without a task. -/
theorem Books.setWorker {s : ThreadPool} {i : ℕ} {v w : Worker} (hs : s.Books)
    (h : s.workers[i]? = some v) (hv : ∀ x, v ≠ .executing x) (hw : ∀ x, w ≠ .executing x) :
    (s.setWorker i w).Books where
  fifo := hs.fifo
  numbered := hs.numbered
  pushed := hs.pushed
  each x hx := by
    have hcount := count_set_add h w (.executing x)
    rw [if_neg (hv x), if_neg (hw x)] at hcount
    have heach := hs.each x hx
    simp only [ThreadPool.setWorker]
    omega
  added := hs.added
  returned := hs.returned
  wanted := hs.wanted

theorem Books.called {s : ThreadPool} (hs : s.Books) : s.called.Books := by
  unfold ThreadPool.called
  split_ifs
  · exact hs
  · exact { hs with wanted := hs.returned }

theorem Books.runDirectly {s : ThreadPool} (hs : s.Books) (callable : Bool) :
    (s.runDirectly callable).Books := by
  unfold ThreadPool.runDirectly
  split_ifs
  · exact {
      fifo := hs.fifo
      numbered := numbered_next hs callable
      pushed := hs.pushed.trans (List.sublist_append_left _ _)
      each := by
        intro x hx
        have heach := hs.each x hx
        simp only [List.count_append]
        omega
      added := fun t x hx => List.mem_append_left _ (hs.added t x hx)
      returned := by
        intro x hx
        rcases List.mem_append.1 hx with hx | hx
        · exact List.mem_append_left _ (hs.returned x hx)
        · exact List.mem_append_right _ hx
      wanted := fun x hx => List.mem_append_left _ (hs.wanted x hx) }
  · exact hs

theorem Books.push {s : ThreadPool} (hs : s.Books) (t : ℕ) (callable : Bool) :
    Books { s with
      queue := s.queue ++ [s.next callable]
      accepted := s.accepted ++ [s.next callable]
      pushed := s.pushed ++ [s.next callable]
      adders := Function.update s.adders t (.added (s.next callable)) } where
  fifo := by
    simp only
    rw [← List.append_assoc, hs.fifo]
  numbered := numbered_next hs callable
  pushed := hs.pushed.append (List.Sublist.refl _)
  each x hx := by
    have heach := hs.each x hx
    simp only [List.count_append]
    omega
  added u x hx := by
    rcases added_of_update hx with hx | hx
    · cases hx
      exact List.mem_append_right _ List.mem_cons_self
    · exact List.mem_append_left _ (hs.added u x hx)
  returned x hx := List.mem_append_left _ (hs.returned x hx)
  wanted x hx := List.mem_append_left _ (hs.wanted x hx)

/-- Every step keeps the books. -/
theorem books_step {s s' : ThreadPool} {l : Label} (hs : s.Books) (h : step s l = some s') :
    s'.Books := by
  cases stepTo_of_step h with
  | start => exact { hs with }
  | spawn =>
    refine { hs with each := fun x hx => ?_ }
    have heach := hs.each x hx
    have hcount : (s.workers ++ [Worker.test]).count (.executing x) =
        s.workers.count (.executing x) := by simp [List.count_append]
    simp only [hcount]
    exact heach
  | startReturn => exact { hs with }
  | addDirectly _ callable => exact hs.runDirectly callable
  | addTask t callable =>
    refine { hs with added := fun u x hx => ?_ }
    rcases added_of_update hx with hx | hx
    · cases hx
    · exact hs.added u x hx
  | push t callable => exact hs.push t callable
  | addReturn t task hadder =>
    refine { hs with added := fun u x hx => ?_, returned := fun x hx => ?_ }
    · rcases added_of_update hx with hx | hx
      · cases hx
      · exact hs.added u x hx
    · rcases List.mem_append.1 hx with hx | hx
      · exact hs.returned x hx
      · rw [List.mem_singleton] at hx
        subst hx
        exact hs.added t x hadder
  | stopCall => exact { hs.called with }
  | stop => exact { hs with }
  | destroyRunning => exact { hs.called with }
  | destroyStopped => exact { hs with }
  | destroyStop => exact { hs with }
  | join => exact { hs with }
  | test i hworker =>
    refine hs.setWorker hworker (by simp) fun x => ?_
    split_ifs <;> simp
  | take i task rest hworker hqueue =>
    refine { hs with fifo := ?_, each := fun x hx => ?_ }
    · have hfifo := hs.fifo
      rw [hqueue] at hfifo
      simpa [ThreadPool.setWorker] using hfifo
    · have heach := hs.each x hx
      rw [hqueue, List.count_cons] at heach
      have hcount := count_set_add hworker (.executing task) (.executing x)
      simp only [reduceCtorEq, if_false, Worker.executing.injEq] at hcount
      simp only [ThreadPool.setWorker]
      simp only [beq_iff_eq] at heach
      omega
  | wait => exact hs
  | leave i hworker => exact hs.setWorker hworker (by simp) (by simp)
  | execute i task hworker =>
    refine { hs with each := fun x hx => ?_ }
    have heach := hs.each x hx
    have hcount := count_set_add hworker .test (.executing x)
    simp only [reduceCtorEq, if_false, Worker.executing.injEq] at hcount
    simp only [ThreadPool.execute, ThreadPool.setWorker]
    by_cases htask : task = x
    · subst htask
      rw [if_pos rfl] at hcount
      rw [if_pos hx, List.count_append, List.count_singleton_self]
      omega
    · rw [if_neg htask] at hcount
      have hexecuted : (if task.callable = true then s.executed ++ [task] else s.executed).count x =
          s.executed.count x := by
        split_ifs
        · rw [List.count_append, List.count_singleton]
          simp [htask]
        · rfl
      omega

theorem books_new (threadSize : ℕ) : (new threadSize).Books where
  fifo := rfl
  numbered := rfl
  pushed := List.Sublist.refl _
  each _ _ := rfl
  added _ _ h := by cases h
  returned _ h := by cases h
  wanted _ h := by cases h

/-! ### The course of a pool -/

/-- `start()` has not been called: no threads, and nobody pushes a task. -/
structure Unstarted (s : ThreadPool) : Prop where
  owner : s.owner = .fresh ∨ s.owner = .joining ∨ s.owner = .destroyed
  workers : s.workers = []
  queue : s.queue = []
  adders : ∀ t callable, s.adders t ≠ .adding callable

/-- What the owner's place and `running_` say about the rest. -/
structure Course (s : ThreadPool) : Prop where
  fresh : s.owner = .fresh → s.Unstarted
  stopped : s.running = false → s.stopCalled = true ∨ s.Unstarted
  stopping : ∀ t, s.stopping t = true → s.stopCalled = true
  destroying : s.owner = .stopping → s.stopCalled = true
  joining : s.owner = .joining ∨ s.owner = .destroyed → s.running = false
  joined : s.owner = .destroyed → ∀ w ∈ s.workers, w = .done

theorem course_new (threadSize : ℕ) : (new threadSize).Course where
  fresh _ := ⟨.inl rfl, rfl, rfl, fun _ _ h => by cases h⟩
  stopped _ := .inr ⟨.inl rfl, rfl, rfl, fun _ _ h => by cases h⟩
  stopping _ h := by cases h
  destroying h := by cases h
  joining _ := rfl
  joined h := by cases h

/-- The call of `stop()` fixes the early tasks as they are. -/
theorem called_eq (s : ThreadPool) : s.called = { s with stopCalled := true, wanted := s.early } := by
  unfold called early
  split_ifs with h
  · rw [← h]
  · rfl

@[simp] theorem called_stopCalled (s : ThreadPool) : s.called.stopCalled = true := by rw [called_eq]

/-- A worker at work belongs to a pool that was started and is not destroyed. -/
theorem Course.atWork {s : ThreadPool} (hs : s.Course) {i : ℕ} {v : Worker}
    (h : s.workers[i]? = some v) (hv : v ≠ .done) : ¬ s.Unstarted ∧ s.owner ≠ .destroyed := by
  have hmem : v ∈ s.workers := List.mem_of_getElem? h
  constructor
  · intro hun
    rw [hun.workers] at hmem
    cases hmem
  · exact fun howner => hv (hs.joined howner v hmem)

/-- What a worker does leaves the course as it is. -/
theorem Course.of_worker {s t : ThreadPool} (hs : s.Course) {i : ℕ} {v : Worker}
    (h : s.workers[i]? = some v) (hv : v ≠ .done) (howner : t.owner = s.owner)
    (hrunning : t.running = s.running) (hcalled : t.stopCalled = s.stopCalled)
    (hstopping : t.stopping = s.stopping) : t.Course := by
  obtain ⟨hun, hdestroyed⟩ := hs.atWork h hv
  exact {
    fresh := fun hf => absurd (hs.fresh (howner ▸ hf)) hun
    stopped := fun hr => .inl (hcalled ▸ (hs.stopped (hrunning ▸ hr)).resolve_right hun)
    stopping := fun u hu => hcalled ▸ hs.stopping u (hstopping ▸ hu)
    destroying := fun ho => hcalled ▸ hs.destroying (howner ▸ ho)
    joining := fun ho => hrunning ▸ hs.joining (howner ▸ ho)
    joined := fun ho => absurd (howner ▸ ho) hdestroyed }

theorem Course.called {s : ThreadPool} (hs : s.Course) : s.called.Course := by
  rw [called_eq]
  exact {
    fresh := fun hf => { hs.fresh hf with }
    stopped := fun _ => .inl rfl
    stopping := fun _ _ => rfl
    destroying := fun _ => rfl
    joining := hs.joining
    joined := hs.joined }

theorem Course.runDirectly {s : ThreadPool} (hs : s.Course) (callable : Bool) :
    (s.runDirectly callable).Course := by
  unfold ThreadPool.runDirectly
  split_ifs
  · exact { hs with
      fresh := fun hf => { hs.fresh hf with }
      stopped := fun hr => (hs.stopped hr).imp id fun hun => { hun with } }
  · exact hs

/-- Every step follows the course. -/
theorem course_step {s s' : ThreadPool} {l : Label} (hs : s.Course) (h : step s l = some s') :
    s'.Course := by
  cases stepTo_of_step h with
  | start howner =>
    exact {
      fresh := fun hf => by cases hf
      stopped := fun hr => by cases hr
      stopping := hs.stopping
      destroying := fun ho => by cases ho
      joining := fun ho => by rcases ho with ho | ho <;> cases ho
      joined := fun ho => by cases ho }
  | spawn howner =>
    refine { hs with fresh := fun hf => ?_, stopped := fun hr => ?_, joined := fun ho => ?_ }
    · rw [howner] at hf
      cases hf
    · refine .inl ((hs.stopped hr).resolve_right fun hun => ?_)
      rcases hun.owner with ho | ho | ho <;> rw [howner] at ho <;> cases ho
    · rw [howner] at ho
      cases ho
  | startReturn howner =>
    refine { hs with
      fresh := fun hf => by cases hf
      stopped := fun hr => ?_
      destroying := fun ho => by cases ho
      joining := fun ho => by rcases ho with ho | ho <;> cases ho
      joined := fun ho => by cases ho }
    refine .inl ((hs.stopped hr).resolve_right fun hun => ?_)
    rcases hun.owner with ho | ho | ho <;> rw [howner] at ho <;> cases ho
  | addDirectly _ callable => exact hs.runDirectly callable
  | addTask t callable _ hworkers =>
    exact { hs with
      fresh := fun hf => absurd (hs.fresh hf).workers hworkers
      stopped := fun hr =>
        .inl ((hs.stopped hr).resolve_right fun hun => hworkers hun.workers) }
  | push t callable hadder =>
    exact { hs with
      fresh := fun hf => absurd hadder ((hs.fresh hf).adders t callable)
      stopped := fun hr =>
        .inl ((hs.stopped hr).resolve_right fun hun => hun.adders t callable hadder) }
  | addReturn t task hadder =>
    have hun : ∀ hun : s.Unstarted, Unstarted { s with
        returned := s.returned ++ [task]
        adders := Function.update s.adders t .outside } := by
      refine fun hun => { hun with adders := fun u callable hu => ?_ }
      by_cases hut : u = t
      · subst hut
        simp at hu
      · exact hun.adders u callable (by simpa [Function.update_of_ne hut] using hu)
    exact { hs with
      fresh := fun hf => hun (hs.fresh hf)
      stopped := fun hr => (hs.stopped hr).imp id hun }
  | stopCall t =>
    exact { hs.called with
      fresh := fun hf => { hs.called.fresh hf with }
      stopped := fun _ => .inl (called_stopCalled s)
      stopping := fun _ _ => called_stopCalled s }
  | stop t hstopping =>
    have hcalled : s.stopCalled = true := hs.stopping t hstopping
    exact { hs with
      fresh := fun hf => { hs.fresh hf with }
      stopped := fun _ => .inl hcalled
      stopping := fun _ _ => hcalled
      joining := fun _ => rfl }
  | destroyRunning howner hrunning =>
    exact {
      fresh := fun hf => by cases hf
      stopped := fun _ => .inl (called_stopCalled s)
      stopping := fun _ _ => called_stopCalled s
      destroying := fun _ => called_stopCalled s
      joining := fun ho => by rcases ho with ho | ho <;> cases ho
      joined := fun ho => by cases ho }
  | destroyStopped howner hrunning =>
    exact { hs with
      fresh := fun hf => by cases hf
      stopped := fun _ =>
        (hs.stopped hrunning).imp id fun hun => { hun with owner := .inr (.inl rfl) }
      destroying := fun ho => by cases ho
      joining := fun _ => hrunning
      joined := fun ho => by cases ho }
  | destroyStop howner =>
    have hcalled : s.stopCalled = true := hs.destroying howner
    exact { hs with
      fresh := fun hf => by cases hf
      stopped := fun _ => .inl hcalled
      destroying := fun ho => by cases ho
      joining := fun _ => rfl
      joined := fun ho => by cases ho }
  | join howner hdone =>
    have hrunning : s.running = false := hs.joining (.inl howner)
    exact { hs with
      fresh := fun hf => by cases hf
      stopped := fun _ =>
        (hs.stopped hrunning).imp id fun hun => { hun with owner := .inr (.inr rfl) }
      destroying := fun ho => by cases ho
      joining := fun _ => hrunning
      joined := fun _ => hdone }
  | test i hworker => exact hs.of_worker hworker (by simp) rfl rfl rfl rfl
  | take i task rest hworker => exact hs.of_worker hworker (by simp) rfl rfl rfl rfl
  | wait => exact hs
  | leave i hworker => exact hs.of_worker hworker (by simp) rfl rfl rfl rfl
  | execute i task hworker => exact hs.of_worker hworker (by simp) rfl rfl rfl rfl

/-! ### What is left behind -/

theorem drains_of_queue_nil {s : ThreadPool} (h : s.queue = []) : s.Drains := by
  intro x _ _ hx
  rw [h] at hx
  cases hx

theorem drains_congr {s t : ThreadPool} (hqueue : t.queue = s.queue) (htakers : t.takers = s.takers)
    (hearly : ∀ x ∈ s.queue, x ∈ t.early ↔ x ∈ s.early) : t.Drains ↔ s.Drains := by
  unfold Drains
  rw [hqueue, htakers]
  constructor
  · exact fun h x hx hc hq => h x ((hearly x hq).2 hx) hc hq
  · exact fun h x hx hc hq => h x ((hearly x hq).1 hx) hc hq

theorem takers_setWorker {s : ThreadPool} {i : ℕ} {v w : Worker} (h : s.workers[i]? = some v)
    (hv : v ≠ .taking) (hw : w ≠ .taking) : (s.setWorker i w).takers = s.takers := by
  have hcount := count_set_add h w Worker.taking
  rw [if_neg hv, if_neg hw] at hcount
  exact hcount

theorem Books.queue_accepted {s : ThreadPool} (hs : s.Books) {x : ThreadFunction}
    (hx : x ∈ s.queue) : x ∈ s.accepted :=
  hs.pushed.mem (hs.fifo ▸ List.mem_append_right _ hx)

/-- A push comes behind everything that is bound to be taken. -/
theorem drains_push {s t : ThreadPool} {task : ThreadFunction} (hqueue : t.queue = s.queue ++ [task])
    (htakers : t.takers = s.takers) (hearly : t.early = s.early) (htask : task ∉ s.early) :
    t.Drains ↔ s.Drains := by
  unfold Drains
  rw [hqueue, htakers, hearly]
  constructor
  · intro h x hx hc hq
    have hmem := h x hx hc (List.mem_append_left _ hq)
    rw [List.take_append] at hmem
    refine (List.mem_append.1 hmem).resolve_right fun hx' => htask ?_
    rwa [← List.mem_singleton.1 (List.mem_of_mem_take hx')]
  · intro h x hx hc hq
    have hq : x ∈ s.queue := by
      refine (List.mem_append.1 hq).resolve_right fun hx' => htask ?_
      rwa [← List.mem_singleton.1 hx']
    rw [List.take_append]
    exact List.mem_append_left _ (h x hx hc hq)

/-- A worker takes the first task; the others that are bound to take one are one less. -/
theorem drains_take {s t : ThreadPool} {task : ThreadFunction} (hnodup : s.queue.Nodup)
    (hqueue : s.queue = task :: t.queue) (htakers : t.takers + 1 = s.takers)
    (hearly : t.early = s.early) : t.Drains ↔ s.Drains := by
  rw [hqueue, List.nodup_cons] at hnodup
  unfold Drains
  rw [hqueue, ← htakers, hearly, List.take_succ_cons]
  constructor
  · intro h x hx hc hq
    rcases List.mem_cons.1 hq with rfl | hq
    · exact List.mem_cons_self
    · exact List.mem_cons_of_mem _ (h x hx hc hq)
  · intro h x hx hc hq
    refine (List.mem_cons.1 (h x hx hc (List.mem_cons_of_mem _ hq))).resolve_left ?_
    rintro rfl
    exact hnodup.1 hq

/-- Once `running_` is cleared, no step changes whether the early tasks will all be taken. -/
theorem drains_step {s s' : ThreadPool} {l : Label} (hb : s.Books) (hc : s.Course)
    (hrunning : s.running = false) (h : step s l = some s') : s'.Drains ↔ s.Drains := by
  cases stepTo_of_step h with
  | start howner =>
    have hqueue : s.queue = [] := (hc.fresh howner).queue
    exact iff_of_true (drains_of_queue_nil hqueue) (drains_of_queue_nil hqueue)
  | spawn => exact drains_congr rfl (by simp [takers, List.count_append]) fun _ _ => Iff.rfl
  | startReturn => exact Iff.rfl
  | addDirectly _ callable _ =>
    unfold runDirectly
    split_ifs
    · refine drains_congr rfl rfl fun x hx => ?_
      have hne : x ≠ s.next callable := fun heq => hb.next_notMem callable (heq ▸ hb.queue_accepted hx)
      simp only [early]
      split_ifs
      · rfl
      · simp [hne]
    · rfl
  | addTask => exact Iff.rfl
  | push t callable =>
    exact drains_push rfl rfl rfl fun hearly => hb.next_notMem callable (hb.early_accepted hearly)
  | addReturn t task =>
    rcases hc.stopped hrunning with hcalled | hun
    · exact drains_congr rfl rfl fun x _ => by simp [early, hcalled]
    · exact iff_of_true (drains_of_queue_nil hun.queue) (drains_of_queue_nil hun.queue)
  | stopCall =>
    rw [called_eq]
    exact drains_congr rfl rfl fun _ _ => Iff.rfl
  | stop => exact Iff.rfl
  | destroyRunning _ hr =>
    rw [hrunning] at hr
    cases hr
  | destroyStopped => exact Iff.rfl
  | destroyStop => exact Iff.rfl
  | join => exact Iff.rfl
  | test i hworker =>
    refine drains_congr rfl (takers_setWorker hworker (by simp) ?_) fun _ _ => Iff.rfl
    simp [hrunning]
  | take i task rest hworker hqueue =>
    refine drains_take hb.queue_nodup hqueue ?_ rfl
    have hcount := count_set_add hworker (.executing task) Worker.taking
    simpa [takers, setWorker] using hcount
  | wait => exact Iff.rfl
  | leave _ _ hqueue => exact iff_of_true (drains_of_queue_nil hqueue) (drains_of_queue_nil hqueue)
  | execute i task hworker =>
    exact drains_congr rfl (takers_setWorker hworker (by simp) (by simp)) fun _ _ => Iff.rfl

/-- If `running_` is cleared, the early tasks will all be taken. -/
def Settled (s : ThreadPool) : Prop := s.running = false → s.Drains

/-- A step keeps a pool settled exactly when it meets `StopsDrained`. -/
theorem settled_step {s s' : ThreadPool} {l : Label} (hb : s.Books) (hc : s.Course)
    (hs : s.Settled) (h : step s l = some s') : s'.Settled ↔ s.StopsDrained l := by
  -- a step that leaves `running_` alone keeps a pool settled
  have hkeep : s'.running = s.running → s'.Settled := fun heq hr =>
    have hr : s.running = false := heq ▸ hr
    (drains_step hb hc hr h).2 (hs hr)
  have hstop : s'.running = false → (s'.Drains ↔ s.Drains) →
      (s'.Settled ↔ (s.running = true → s.Drains)) := by
    intro hr heq
    constructor
    · exact fun hs' _ => heq.1 (hs' hr)
    · intro hd _
      cases hrunning : s.running with
      | false => exact heq.2 (hs hrunning)
      | true => exact heq.2 (hd hrunning)
  cases stepTo_of_step h with
  | stop => exact hstop rfl Iff.rfl
  | destroyStop => exact hstop rfl Iff.rfl
  | start => exact iff_of_true (fun hr => by cases hr) trivial
  | addDirectly _ callable =>
    exact iff_of_true (hkeep (runDirectly_running s callable)) trivial
  | stopCall => exact iff_of_true (hkeep (called_running s)) trivial
  | destroyRunning => exact iff_of_true (hkeep (called_running s)) trivial
  | _ => exact iff_of_true (hkeep rfl) trivial

/-- A pool that is not settled remains so. -/
theorem not_settled_step {s s' : ThreadPool} {l : Label} (hb : s.Books) (hc : s.Course)
    (hs : ¬ s.Settled) (h : step s l = some s') : ¬ s'.Settled := by
  obtain ⟨hrunning, hdrains⟩ := Classical.not_imp.1 hs
  have hdrains' : ¬ s'.Drains := mt (drains_step hb hc hrunning h).1 hdrains
  refine fun hs' => hdrains' (hs' ?_)
  cases stepTo_of_step h with
  | start howner => exact absurd (drains_of_queue_nil (hc.fresh howner).queue) hdrains
  | addDirectly _ callable => exact (runDirectly_running s callable).trans hrunning
  | stopCall => exact (called_running s).trans hrunning
  | destroyRunning => exact (called_running s).trans hrunning
  | stop => rfl
  | destroyStop => rfl
  | _ => exact hrunning

theorem invariants_step {s s' : ThreadPool} {l : Label} (hs : s.Books ∧ s.Course)
    (h : step s l = some s') : s'.Books ∧ s'.Course :=
  ⟨books_step hs.1 h, course_step hs.2 h⟩

theorem invariants_run {n : ℕ} {ls : List Label} {s : ThreadPool}
    (h : run step (new n) ls = some s) : s.Books ∧ s.Course :=
  run_preserves (fun _ _ _ => invariants_step) ⟨books_new n, course_new n⟩ h

/-- In a run the pool is settled at the end exactly when every step meets `StopsDrained`. -/
theorem settled_iff_along {n : ℕ} {ls : List Label} {s : ThreadPool}
    (h : run step (new n) ls = some s) : s.Settled ↔ Along step StopsDrained (new n) ls := by
  have hprefix := forall_prefix_iff_along (C := StopsDrained) (P := Settled)
    (I := fun u => u.Books ∧ u.Course) (fun _ _ _ => invariants_step)
    (fun u l t hu hs hstep => settled_step hu.1 hu.2 hs hstep) ⟨books_new n, course_new n⟩
    (fun _ => drains_of_queue_nil rfl) h
  refine Iff.trans ⟨fun hs ms u hms hu => ?_, fun hall => hall ls s (List.prefix_refl _) h⟩ hprefix
  obtain ⟨ns, rfl⟩ := hms
  obtain ⟨v, hv, hrest⟩ := run_append_eq_some.1 h
  rw [hu] at hv
  cases hv
  by_contra hnot
  have hend := run_preserves (P := fun v => (v.Books ∧ v.Course) ∧ ¬ v.Settled)
    (fun v l t hv hstep => ⟨invariants_step hv.1 hstep, not_settled_step hv.1.1 hv.1.2 hv.2 hstep⟩)
    ⟨invariants_run hu, hnot⟩ hrest
  exact hend.2 hs

/-- After the joins the early tasks have been executed exactly if none is left in the queue. -/
theorem earlyExecuted_iff_settled {s : ThreadPool} (hb : s.Books) (hc : s.Course)
    (h : s.owner = .destroyed) : s.EarlyExecuted ↔ s.Settled := by
  have hdone := hc.joined h
  have htakers : s.takers = 0 := List.count_eq_zero.2 fun hmem => by cases hdone _ hmem
  have hexecuting : ∀ x, s.workers.count (.executing x) = 0 := fun x =>
    List.count_eq_zero.2 fun hmem => by cases hdone _ hmem
  have hrunning : s.running = false := hc.joining (.inr h)
  have hcount : ∀ x ∈ s.early, x.callable = true → s.executed.count x + s.queue.count x = 1 := by
    intro x hx hcallable
    have heach := hb.each x hcallable
    rw [hexecuting x, List.count_eq_one_of_mem hb.accepted_nodup (hb.early_accepted hx)] at heach
    omega
  have hsettled : s.Settled ↔ ∀ x ∈ s.early, x.callable = true → x ∉ s.queue := by
    simp [Settled, Drains, hrunning, htakers]
  rw [hsettled]
  refine forall₂_congr fun x hx => forall_congr' fun hcallable => ?_
  have hx := hcount x hx hcallable
  rw [← List.count_eq_zero]
  omega

/-- **Tasks are taken in the order in which they were added, and after the joins of `~ThreadPool`
every task added before `stop()` has been executed exactly once**, the latter if and only if
`running_` was cleared only when the workers were bound to take all of these tasks. -/
theorem executed_by_join_iff (n : ℕ) {ls : List Label} {s : ThreadPool}
    (h : run step (new n) ls = some s) :
    s.taken ++ s.queue = s.pushed ∧
      (s.owner = .destroyed → (s.EarlyExecuted ↔ Along step StopsDrained (new n) ls)) := by
  obtain ⟨hb, hc⟩ := invariants_run h
  refine ⟨hb.fifo, fun howner => ?_⟩
  rw [earlyExecuted_iff_settled hb hc howner]
  exact settled_iff_along h

/-- One worker is started, `addTask` of one task returns. -/
def oneTask : List Label :=
  [.start, .spawn, .startReturn, .addTask 1 true, .push 1, .addReturn 1]

/-- The worker takes the task before the destructor stops the pool. -/
theorem executed_by_join_taken :
    ∃ s, run step (new 1) (oneTask ++ [.test 0, .take 0, .destroy, .destroyStop, .execute 0,
        .test 0, .join]) = some s ∧ s.owner = .destroyed ∧ s.EarlyExecuted := by
  have hrun : run step (new 1) (oneTask ++ [.test 0, .take 0, .destroy, .destroyStop, .execute 0,
      .test 0, .join]) = some _ := rfl
  refine ⟨_, hrun, rfl, ((executed_by_join_iff 1 hrun).2 rfl).2 ((settled_iff_along hrun).1 ?_)⟩
  intro _ x _ _ hx
  cases hx

/-- The destructor stops the pool before the worker has tested `running_`: the task stays in the
queue. -/
theorem task_left_in_queue :
    ∃ s, run step (new 1) (oneTask ++ [.destroy, .destroyStop, .test 0, .join]) = some s ∧
      s.owner = .destroyed ∧ s.wanted = [⟨0, true⟩] ∧ s.executed = [] ∧ ¬ s.EarlyExecuted := by
  refine ⟨_, rfl, rfl, rfl, rfl, fun hall => ?_⟩
  exact absurd (hall ⟨0, true⟩ List.mem_cons_self rfl) (by decide)

end ThreadPool

end TinyNetwork
