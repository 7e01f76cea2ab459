import TinyNetwork.Mysql.PoolAccounting

/-!
# Which connections circulate

`addConnection` does not look at what `connect` returns: a connection that could not connect is put
into the queue and counted like any other.

`usable_iff`: only connections that are connected circulate, and a `connect` that fails changes
nothing, if and only if none fails.
-/

namespace TinyNetwork

open Lts

namespace ConnectionPool

/-- Every connection in the queue and every connection lent out could connect. -/
structure Usable (s : ConnectionPool) : Prop where
  idle : ∀ conn ∈ s.connQueue, conn.connected = true
  lent : ∀ p ∈ s.lent, p.2.connected = true

/-- A `connect` that fails in this step leaves the queue and the counter as they were. -/
def FailsCleanly (s : ConnectionPool) : Label → Prop
  | .produceConnection false now => s.Adds (.produceConnection false now) →
      (s.produceConnection false now).connQueue = s.connQueue ∧
        (s.produceConnection false now).currentSize = s.currentSize
  | _ => True

/-- The same for the constructor. -/
def FillsCleanly (minSize maxSize maxIdleTime : ℤ) (answers : ℕ → Bool × ℤ) : Prop :=
  ∀ i < minSize.toNat, (answers i).1 = false →
    ((empty minSize maxSize maxIdleTime).fill answers (i + 1)).connQueue =
        ((empty minSize maxSize maxIdleTime).fill answers i).connQueue ∧
      ((empty minSize maxSize maxIdleTime).fill answers (i + 1)).currentSize =
        ((empty minSize maxSize maxIdleTime).fill answers i).currentSize

/-- A `connect` in this step succeeds. -/
def Connects (s : ConnectionPool) : Label → Prop
  | .produceConnection connected now =>
    s.Adds (.produceConnection connected now) → connected = true
  | _ => True

theorem lent_construct (minSize maxSize maxIdleTime : ℤ) (answers : ℕ → Bool × ℤ) :
    (construct minSize maxSize maxIdleTime answers).lent = [] := by
  unfold construct
  induction minSize.toNat with
  | zero => rfl
  | succ n ih => exact ih

/-- The constructor fills the queue with what its calls of `connect` gave. -/
theorem usable_construct_iff (minSize maxSize maxIdleTime : ℤ) (answers : ℕ → Bool × ℤ) :
    (construct minSize maxSize maxIdleTime answers).Usable ↔
      ∀ i < minSize.toNat, (answers i).1 = true := by
  have hqueue : (construct minSize maxSize maxIdleTime answers).connQueue = _ :=
    connQueue_fill minSize maxSize maxIdleTime answers minSize.toNat
  constructor
  · intro h i hi
    refine h.idle ⟨i, (answers i).1, (answers i).2⟩ ?_
    rw [hqueue]
    exact List.mem_map.2 ⟨i, List.mem_range.2 hi, rfl⟩
  · intro h
    constructor
    · intro conn hconn
      rw [hqueue] at hconn
      obtain ⟨i, hi, rfl⟩ := List.mem_map.1 hconn
      exact h i (List.mem_range.1 hi)
    · rw [lent_construct]
      simp

theorem Usable.getConnection {s : ConnectionPool} (hs : s.Usable) (c : ClientId) :
    (s.getConnection c).Usable := by
  refine ⟨fun conn hconn => hs.idle conn ((s.connQueue_getConnection_suffix c).subset hconn), ?_⟩
  unfold ConnectionPool.getConnection
  cases hqueue : s.connQueue with
  | nil => exact hs.lent
  | cons conn rest =>
    intro p hp
    rcases List.mem_append.1 hp with hold | hnew
    · exact hs.lent p hold
    · obtain rfl := List.mem_singleton.1 hnew
      exact hs.idle conn (by simp [hqueue])

theorem Usable.release {s : ConnectionPool} (hs : s.Usable) {c : ClientId} {conn : MysqlConn}
    (hmem : (c, conn) ∈ s.lent) (now : ℤ) : (s.release c conn now).Usable := by
  refine ⟨fun conn' hconn' => ?_, fun p hp => hs.lent p (List.mem_of_mem_erase hp)⟩
  rcases List.mem_append.1 hconn' with hold | hnew
  · exact hs.idle conn' hold
  · obtain rfl := List.mem_singleton.1 hnew
    exact hs.lent (c, conn) hmem

/-- **One step** keeps the connections usable exactly if its `connect` succeeds. -/
theorem usable_step_iff {s t : ConnectionPool} {l : Label} (hs : s.Usable)
    (h : step s l = some t) : t.Usable ↔ s.Connects l := by
  cases stepTo_of_step h with
  | getConnection c => exact iff_of_true (hs.getConnection c) trivial
  | wake c => exact iff_of_true (hs.getConnection c) trivial
  | release c conn now hmem => exact iff_of_true (hs.release hmem now) trivial
  | produces connected now hadds =>
    constructor
    · intro ht _
      exact ht.idle ⟨s.nextId, connected, now⟩
        (List.mem_append_right _ (List.mem_singleton_self _))
    · intro hconnects
      refine ⟨fun conn hconn => ?_, hs.lent⟩
      rcases List.mem_append.1 hconn with hold | hnew
      · exact hs.idle conn hold
      · obtain rfl := List.mem_singleton.1 hnew
        exact hconnects hadds
  | rests connected now hrests => exact iff_of_true hs fun hadds => absurd hadds hrests
  | recycleConnection now =>
    refine iff_of_true ⟨fun conn hconn => hs.idle conn ?_, hs.lent⟩ trivial
    exact (s.connQueue_recycleConnection_suffix now).subset hconn

theorem failsCleanly_of_connects {s : ConnectionPool} {l : Label} (h : s.Connects l) :
    s.FailsCleanly l := by
  cases l with
  | produceConnection connected now =>
    cases connected with
    | false => exact fun hadds => absurd (h hadds) (by decide)
    | true => trivial
  | _ => trivial

/-- **Which connections circulate.**  Throughout a run every connection in `connQueue_` and every
connection lent out is one that could connect, and a `connect` that fails leaves `connQueue_` and
`currentSize_` as they were, if and only if no `connect` fails, in the constructor or in the run. -/
theorem usable_iff (minSize maxSize maxIdleTime : ℤ) (answers : ℕ → Bool × ℤ) {ls : List Label}
    {s : ConnectionPool}
    (h : run step (construct minSize maxSize maxIdleTime answers) ls = some s) :
    ((∀ ms u, ms <+: ls →
        run step (construct minSize maxSize maxIdleTime answers) ms = some u → u.Usable) ∧
      FillsCleanly minSize maxSize maxIdleTime answers ∧
      Along step FailsCleanly (construct minSize maxSize maxIdleTime answers) ls) ↔
    (∀ i < minSize.toNat, (answers i).1 = true) ∧
      Along step Connects (construct minSize maxSize maxIdleTime answers) ls := by
  have hstep : ∀ u l t, True → Usable u → step u l = some t → (t.Usable ↔ u.Connects l) :=
    fun u l t _ hu => usable_step_iff hu
  constructor
  · rintro ⟨hall, -, -⟩
    have hstart := hall [] _ List.nil_prefix rfl
    exact ⟨(usable_construct_iff minSize maxSize maxIdleTime answers).1 hstart,
      (forall_prefix_iff_along (fun _ _ _ _ _ => trivial) hstep trivial hstart h).1 hall⟩
  · rintro ⟨hanswers, halong⟩
    have hstart := (usable_construct_iff minSize maxSize maxIdleTime answers).2 hanswers
    refine ⟨(forall_prefix_iff_along (fun _ _ _ _ _ => trivial) hstep trivial hstart h).2 halong,
      fun i hi hfail => ?_, ?_⟩
    · rw [hanswers i hi] at hfail
      cases hfail
    · exact along_mono (I := fun _ => True) (fun _ _ _ _ _ _ => trivial)
        (fun _ _ _ hconnects => failsCleanly_of_connects hconnects) trivial halong

/-- The connection made by the constructor connects, and so does the one made later. -/
theorem usable_two :
    ∃ s, run step (construct 1 4 60 fun _ => (true, 0))
        [.getConnection 1, .produceConnection true 5] = some s ∧ s.Usable := by
  have hrun : run step (construct 1 4 60 fun _ => (true, 0))
      [.getConnection 1, .produceConnection true 5] = some _ := rfl
  have hall := ((usable_iff 1 4 60 (fun _ => (true, 0)) hrun).2 ⟨fun _ _ => rfl, trivial, ?_⟩).1
  · exact ⟨_, hrun, hall _ _ (List.prefix_refl _) hrun⟩
  · exact fun t _ => ⟨fun _ => rfl, fun u _ => trivial⟩

/-- The server is down: the connection is put into the queue all the same, counted, and lent. -/
theorem unusable_lent :
    ∃ u s, run step (construct 0 4 60 fun _ => (true, 0)) [.produceConnection false 5] = some u ∧
      run step (construct 0 4 60 fun _ => (true, 0))
        [.produceConnection false 5, .getConnection 1] = some s ∧
      u.connQueue = [⟨0, false, 5⟩] ∧ u.currentSize = 2 ∧ s.lent = [(1, ⟨0, false, 5⟩)] ∧
      ¬ u.Usable ∧ ¬ s.Usable := by
  refine ⟨_, _, rfl, rfl, rfl, rfl, rfl, fun hu => ?_, fun hs => ?_⟩
  · exact absurd (hu.idle ⟨0, false, 5⟩ (List.mem_singleton_self _)) (by decide)
  · exact absurd (hs.lent (1, ⟨0, false, 5⟩) (List.mem_singleton_self _)) (by decide)

end ConnectionPool

end TinyNetwork
