import TinyNetwork.Mysql.PoolAccounting

/-!
# What the recycler deletes

A pass of `recycleConnection` looks at the front of the queue only.  That is enough because the
queue is ordered by the time of the last activity: a connection is put at the end at the moment it
becomes active.

`recycling_exact_iff`: if the clock never goes back, the queue is ordered in every state of every
run. A pass deletes old connections only, and all of them down to `minSize_`, unless that is
negative: the constructor takes it for zero, but here it is compared with a `size_t`, and no pass
looks at anything.
-/

namespace TinyNetwork

open Lts

namespace ConnectionPool

/-- The connections are in the order of their last activity. -/
def Ordered (conns : List MysqlConn) : Prop :=
  conns.Pairwise fun a b => a.lastActiveTime ≤ b.lastActiveTime

/-- The iterations of `recycleLoop` in which the front is examined. -/
def examinations (minSize maxIdleTime : ℤ) (now : ℕ → ℤ) : ℕ → List MysqlConn → List ℕ
  | _, [] => []
  | i, conn :: rest =>
    if toSizeT minSize < (conn :: rest).length then
      if maxIdleTime ≤ conn.getAliveTime (now i) then
        i :: examinations minSize maxIdleTime now (i + 1) rest
      else [i]
    else []

/-- The iterations of a pass in which the front is examined. -/
def examined (s : ConnectionPool) (now : ℕ → ℤ) : List ℕ :=
  examinations s.minSize s.maxIdleTime now 0 s.connQueue

/-- The connections that a pass deletes. -/
def recycled (s : ConnectionPool) (now : ℕ → ℤ) : List MysqlConn :=
  (recycleLoop s.minSize s.maxIdleTime now 0 s.connQueue).2

/-- The readings of the steady clock in a step. -/
def readings (s : ConnectionPool) : Label → List ℤ
  | .getConnection _ => []
  | .wake _ => []
  | .release _ _ now => [now]
  | .produceConnection _ now =>
    if s.connQueue.isEmpty ∧ s.currentSize < s.maxSize then [now] else []
  | .recycleConnection now => (s.examined now).map now

/-- The readings of the steady clock in the constructor. -/
def firstReadings (minSize : ℤ) (answers : ℕ → Bool × ℤ) : List ℤ :=
  (List.range minSize.toNat).map fun i => (answers i).2

/-- A pass leaves at most `minSize_` connections, or it examined the front and, when it last did so,
none was old; it deletes old connections, and does not go below `minSize_`. -/
structure RecyclesExactly (s : ConnectionPool) (now : ℕ → ℤ) : Prop where
  ends : ((s.recycleConnection now).connQueue.length : ℤ) ≤ s.minSize ∨
    ∃ k, (s.examined now).getLast? = some k ∧
      ∀ conn ∈ (s.recycleConnection now).connQueue, conn.getAliveTime (now k) < s.maxIdleTime
  deletes : ∀ conn ∈ s.recycled now, ∃ k ∈ s.examined now,
    s.maxIdleTime ≤ conn.getAliveTime (now k)
  keeps : (s.recycleConnection now).connQueue = s.connQueue ∨
    s.minSize ≤ (s.recycleConnection now).connQueue.length

/-! ### The loop -/

variable (minSize maxIdleTime : ℤ) (now : ℕ → ℤ)

/-- The loop ends at the size, or at a front that is not old. -/
theorem recycleLoop_ends (i : ℕ) (conns : List MysqlConn) :
    (recycleLoop minSize maxIdleTime now i conns).1.length ≤ toSizeT minSize ∨
      ∃ k conn rest, (examinations minSize maxIdleTime now i conns).getLast? = some k ∧
        (recycleLoop minSize maxIdleTime now i conns).1 = conn :: rest ∧
        conn.getAliveTime (now k) < maxIdleTime := by
  induction conns generalizing i with
  | nil => exact .inl (Nat.zero_le _)
  | cons conn conns ih =>
    rw [recycleLoop, examinations]
    split_ifs with hsize hold
    · rcases ih (i + 1) with hend | ⟨k, front, rest, hlast, hfront, hyoung⟩
      · exact .inl hend
      · exact .inr ⟨k, front, rest, by rw [List.getLast?_cons, hlast]; rfl, hfront, hyoung⟩
    · exact .inr ⟨i, conn, conns, rfl, rfl, not_le.1 hold⟩
    · exact .inl (not_lt.1 hsize)

/-- What the loop deletes was examined and old. -/
theorem old_of_recycleLoop {i : ℕ} {conns : List MysqlConn} {conn : MysqlConn}
    (h : conn ∈ (recycleLoop minSize maxIdleTime now i conns).2) :
    ∃ k ∈ examinations minSize maxIdleTime now i conns,
      maxIdleTime ≤ conn.getAliveTime (now k) := by
  induction conns generalizing i with
  | nil => cases h
  | cons front conns ih =>
    rw [recycleLoop] at h
    rw [examinations]
    split_ifs at h ⊢ with hsize hold
    · rcases List.mem_cons.1 h with rfl | hmem
      · exact ⟨i, List.mem_cons_self, hold⟩
      · obtain ⟨k, hk, hle⟩ := ih hmem
        exact ⟨k, List.mem_cons_of_mem _ hk, hle⟩
    · cases h
    · cases h

/-- The loop does not go below the size. -/
theorem recycleLoop_keeps (i : ℕ) (conns : List MysqlConn) :
    (recycleLoop minSize maxIdleTime now i conns).1 = conns ∨
      toSizeT minSize ≤ (recycleLoop minSize maxIdleTime now i conns).1.length := by
  induction conns generalizing i with
  | nil => exact .inl rfl
  | cons conn conns ih =>
    rw [recycleLoop]
    split_ifs with hsize hold
    · right
      rcases ih (i + 1) with hall | hle
      · rw [hall]
        exact Nat.le_of_lt_succ hsize
      · exact hle
    · exact .inl rfl
    · exact .inl rfl

theorem examinations_of_le (i : ℕ) {conns : List MysqlConn} (h : conns.length ≤ toSizeT minSize) :
    examinations minSize maxIdleTime now i conns = [] := by
  cases conns with
  | nil => rfl
  | cons conn conns => exact if_neg (not_lt.2 h)

/-- A connection that was active later has been idle for a shorter time. -/
theorem getAliveTime_le {a b : MysqlConn} (h : a.lastActiveTime ≤ b.lastActiveTime) (t : ℤ) :
    b.getAliveTime t ≤ a.getAliveTime t :=
  Int.tdiv_le_tdiv (by decide) (by omega)

/-- In an ordered queue nothing is older than the front. -/
theorem getAliveTime_lt_of_front {conn front : MysqlConn} {rest : List MysqlConn} {t : ℤ}
    (hordered : Ordered (front :: rest)) (hyoung : front.getAliveTime t < maxIdleTime)
    (hmem : conn ∈ front :: rest) : conn.getAliveTime t < maxIdleTime := by
  rcases List.mem_cons.1 hmem with rfl | hrest
  · exact hyoung
  · exact (getAliveTime_le ((List.pairwise_cons.1 hordered).1 conn hrest) t).trans_lt hyoung

/-- **A pass** over an ordered queue is exact, if `minSize_` is not negative. -/
theorem recyclesExactly {s : ConnectionPool} (hordered : Ordered s.connQueue)
    (hmin : 0 ≤ s.minSize) (hmax : s.minSize < 2 ^ 31) : s.RecyclesExactly now := by
  have hsize : toSizeT s.minSize = s.minSize.toNat := toSizeT_of_nonneg hmin (by omega)
  refine ⟨?_, fun conn hconn => old_of_recycleLoop _ _ _ hconn, ?_⟩
  · rcases recycleLoop_ends s.minSize s.maxIdleTime now 0 s.connQueue with
      hend | ⟨k, front, rest, hlast, hfront, hyoung⟩
    · left
      rw [hsize] at hend
      show ((recycleLoop s.minSize s.maxIdleTime now 0 s.connQueue).1.length : ℤ) ≤ s.minSize
      omega
    · refine .inr ⟨k, hlast, fun conn hconn => ?_⟩
      have hleft : Ordered (front :: rest) := by
        rw [← hfront]
        exact hordered.sublist (s.connQueue_recycleConnection_suffix now).sublist
      exact getAliveTime_lt_of_front _ hleft hyoung (hfront ▸ hconn)
  · refine (recycleLoop_keeps s.minSize s.maxIdleTime now 0 s.connQueue).imp_right fun hle => ?_
    rw [hsize] at hle
    show s.minSize ≤ ((recycleLoop s.minSize s.maxIdleTime now 0 s.connQueue).1.length : ℤ)
    omega

/-- A negative `minSize_` is converted to a huge one, and no connection is examined. -/
theorem not_recyclesExactly {s : ConnectionPool} (hneg : s.minSize < 0) (hmin : -2 ^ 31 ≤ s.minSize)
    (hlen : s.connQueue.length < 2 ^ 31) : ¬ s.RecyclesExactly now := by
  intro hs
  have hhuge := le_toSizeT_of_neg hneg hmin
  have hnone : s.examined now = [] := examinations_of_le _ _ _ _ (by omega)
  rcases hs.ends with hle | ⟨k, hlast, -⟩
  · omega
  · rw [hnone] at hlast
    cases hlast

/-! ### The queue is ordered -/

/-- The queue is ordered, and its times are among the readings of the clock so far. -/
structure Timed (past : List ℤ) (s : ConnectionPool) : Prop where
  ordered : Ordered s.connQueue
  mem_past : ∀ conn ∈ s.connQueue, conn.lastActiveTime ∈ past

/-- A queue from which connections are taken. -/
theorem Timed.suffix {past later : List ℤ} {s t : ConnectionPool} (hs : Timed past s)
    (h : t.connQueue <:+ s.connQueue) : Timed (past ++ later) t :=
  ⟨hs.ordered.sublist h.sublist, fun conn hconn =>
    List.mem_append_left _ (hs.mem_past conn (h.subset hconn))⟩

/-- A connection that becomes active is put at the end. -/
theorem Timed.push {past : List ℤ} {s t : ConnectionPool} (hs : Timed past s) (conn : MysqlConn)
    (hclock : (past ++ [conn.lastActiveTime]).Pairwise (· ≤ ·))
    (h : t.connQueue = s.connQueue ++ [conn]) : Timed (past ++ [conn.lastActiveTime]) t := by
  have hlast := (List.pairwise_append.1 hclock).2.2
  constructor
  · rw [Ordered, h, List.pairwise_append]
    refine ⟨hs.ordered, List.pairwise_singleton _ _, fun a ha b hb => ?_⟩
    obtain rfl := List.mem_singleton.1 hb
    exact hlast _ (hs.mem_past a ha) _ (List.mem_singleton_self _)
  · intro a ha
    rw [h] at ha
    rcases List.mem_append.1 ha with hold | hnew
    · exact List.mem_append_left _ (hs.mem_past a hold)
    · obtain rfl := List.mem_singleton.1 hnew
      exact List.mem_append_right _ (List.mem_singleton_self _)

/-- **One step** keeps the queue ordered, if the clock does not go back. -/
theorem timed_step {past : List ℤ} {s t : ConnectionPool} {l : Label} (hs : Timed past s)
    (hclock : (past ++ s.readings l).Pairwise (· ≤ ·)) (h : step s l = some t) :
    Timed (past ++ s.readings l) t := by
  cases stepTo_of_step h with
  | getConnection c => exact hs.suffix (s.connQueue_getConnection_suffix c)
  | wake c => exact hs.suffix (s.connQueue_getConnection_suffix c)
  | release c conn now hmem => exact hs.push (conn.refreshAliveTime now) hclock rfl
  | produces connected now hadds =>
    have hread : s.readings (.produceConnection connected now) = [now] :=
      if_pos ⟨List.isEmpty_iff.2 hadds.1, hadds.2⟩
    rw [hread] at hclock ⊢
    exact hs.push ⟨s.nextId, connected, now⟩ hclock rfl
  | rests connected now hrests => exact hs.suffix (List.suffix_refl _)
  | recycleConnection now => exact hs.suffix (s.connQueue_recycleConnection_suffix now)

theorem timed_construct (minSize maxSize maxIdleTime : ℤ) (answers : ℕ → Bool × ℤ)
    (hclock : (firstReadings minSize answers).Pairwise (· ≤ ·)) :
    Timed (firstReadings minSize answers) (construct minSize maxSize maxIdleTime answers) := by
  have hqueue : (construct minSize maxSize maxIdleTime answers).connQueue =
      (List.range minSize.toNat).map fun i => ⟨i, (answers i).1, (answers i).2⟩ :=
    connQueue_fill minSize maxSize maxIdleTime answers minSize.toNat
  constructor
  · rw [Ordered, hqueue, List.pairwise_map]
    exact List.pairwise_map.1 hclock
  · intro conn hconn
    rw [hqueue] at hconn
    obtain ⟨i, hi, rfl⟩ := List.mem_map.1 hconn
    exact List.mem_map.2 ⟨i, hi, rfl⟩

/-- The readings of the clock in the constructor and in a run. -/
def clockOf (minSize maxSize maxIdleTime : ℤ) (answers : ℕ → Bool × ℤ) (ls : List Label) :
    List ℤ :=
  firstReadings minSize answers ++
    emitted step readings (construct minSize maxSize maxIdleTime answers) ls

theorem timed_of_run (minSize maxSize maxIdleTime : ℤ) (answers : ℕ → Bool × ℤ) {ls : List Label}
    {s : ConnectionPool}
    (h : run step (construct minSize maxSize maxIdleTime answers) ls = some s)
    (hclock : (clockOf minSize maxSize maxIdleTime answers ls).Pairwise (· ≤ ·)) :
    Timed (clockOf minSize maxSize maxIdleTime answers ls) s := by
  refine run_history (P := fun ms u =>
    (clockOf minSize maxSize maxIdleTime answers ms).Pairwise (· ≤ ·) →
      Timed (clockOf minSize maxSize maxIdleTime answers ms) u) (fun hfirst => ?_) ?_ h hclock
  · rw [clockOf, emitted, List.append_nil] at hfirst ⊢
    exact timed_construct minSize maxSize maxIdleTime answers hfirst
  · intro ms u l v hu htimed hv hnext
    rw [clockOf, emitted_concat hu, ← List.append_assoc] at hnext ⊢
    exact timed_step (htimed (List.pairwise_append.1 hnext).1) hnext hv

/-- **Which passes are exact.**  If the readings of the steady clock in a run of the pool are in
order, the queue is ordered by the time of the last activity in every state of the run.  Each pass
of the recycler leaves at most `minSize_` idle connections or, when it last examined the front, none
that had been idle for `maxIdleTime_`, deletes only connections that had been, and does not go below
`minSize_`, if and only if `minSize_` is not negative, or there is no pass. -/
theorem recycling_exact_iff (minSize maxSize maxIdleTime : IntegerType.int.Value)
    (answers : ℕ → Bool × ℤ) {ls : List Label} {s : ConnectionPool}
    (h : run step (construct minSize.val maxSize.val maxIdleTime.val answers) ls = some s)
    (hclock : (clockOf minSize.val maxSize.val maxIdleTime.val answers ls).Pairwise (· ≤ ·)) :
    (∀ ms u, ms <+: ls →
      run step (construct minSize.val maxSize.val maxIdleTime.val answers) ms = some u →
        Ordered u.connQueue) ∧
    ((∀ before now u, before ++ [.recycleConnection now] <+: ls →
        run step (construct minSize.val maxSize.val maxIdleTime.val answers) before = some u →
          u.RecyclesExactly now) ↔
      0 ≤ minSize.val ∨ ∀ now, .recycleConnection now ∉ ls) := by
  have hmin : -2 ^ 31 ≤ minSize.val := minSize.min_le
  have hmax : minSize.val ≤ 2 ^ 31 - 1 := minSize.le_max
  have hmax' : maxSize.val ≤ 2 ^ 31 - 1 := maxSize.le_max
  have hordered : ∀ ms u, ms <+: ls →
      run step (construct minSize.val maxSize.val maxIdleTime.val answers) ms = some u →
        Ordered u.connQueue := by
    intro ms u hms hu
    have hbefore : clockOf minSize.val maxSize.val maxIdleTime.val answers ms <+:
        clockOf minSize.val maxSize.val maxIdleTime.val answers ls :=
      (List.prefix_append_right_inj _).2 (emitted_mono hms _)
    exact (timed_of_run _ _ _ answers hu (hclock.sublist hbefore.sublist)).ordered
  refine ⟨hordered, fun hall => ?_, fun hcond before now u hpass hu => ?_⟩
  · by_contra hnot
    obtain ⟨hneg, hsome⟩ := not_or.1 hnot
    push Not at hneg hsome
    obtain ⟨now, hnow⟩ := hsome
    obtain ⟨before, rest, rfl⟩ := List.append_of_mem hnow
    obtain ⟨u, -, hu, -, -⟩ := run_append_cons_eq_some.1 h
    have hbounded : Bounded minSize.val maxSize.val u :=
      run_preserves (fun _ _ _ hv hstep => bounded_step hv hstep)
        (bounded_construct minSize.val maxSize.val maxIdleTime.val answers) hu
    have hlive := hbounded.live_le
    have hsize := hbounded.minSize_eq
    refine not_recyclesExactly now (by omega) (by omega) ?_ (hall before now u ?_ hu)
    · unfold live at hlive
      omega
    · exact ⟨rest, by simp⟩
  · have hsize : u.minSize = minSize.val :=
      (run_preserves (fun _ _ _ hv hstep => bounded_step hv hstep)
        (bounded_construct minSize.val maxSize.val maxIdleTime.val answers) hu).minSize_eq
    have hmem : .recycleConnection now ∈ ls := hpass.subset (by simp)
    have hnonneg : 0 ≤ minSize.val := hcond.resolve_right fun hnone => hnone now hmem
    refine recyclesExactly now (hordered before u ?_ hu) (by omega) (by omega)
    exact (List.prefix_append _ _).trans hpass

/-- A connection is lent out, another one is made, the first one comes back. -/
def comeAndGo : List Label :=
  [.getConnection 1, .produceConnection true 500000, .release 1 ⟨0, true, 0⟩ 1000000]

/-- The older one of the two is deleted. -/
theorem recycling_exact_two :
    ∃ u s, run step (construct 1 4 1 fun _ => (true, 0)) comeAndGo = some u ∧
      run step (construct 1 4 1 fun _ => (true, 0))
        (comeAndGo ++ [.recycleConnection fun _ => 2000000]) = some s ∧
      s.deleted = [1] ∧ Ordered s.connQueue ∧ u.RecyclesExactly fun _ => 2000000 := by
  have hu : run step (construct 1 4 1 fun _ => (true, 0)) comeAndGo = some _ := rfl
  have hs : run step (construct 1 4 1 fun _ => (true, 0))
      (comeAndGo ++ [.recycleConnection fun _ => 2000000]) = some _ := rfl
  obtain ⟨hordered, hpasses⟩ := recycling_exact_iff ⟨1, by decide, by decide⟩
    ⟨4, by decide, by decide⟩ ⟨1, by decide, by decide⟩ (fun _ => (true, 0)) hs (by decide)
  exact ⟨_, _, hu, hs, rfl, hordered _ _ (List.prefix_refl _) hs,
    hpasses.2 (.inl (by decide)) _ _ _ (List.prefix_refl _) hu⟩

/-- With `minSize_ = -1` a connection that has been idle for two milliseconds, of which one is
allowed, is not even looked at. -/
theorem recycling_negative :
    ∃ u s, run step (construct (-1) 4 1 fun _ => (true, 0)) [.produceConnection true 0] = some u ∧
      run step (construct (-1) 4 1 fun _ => (true, 0))
        [.produceConnection true 0, .recycleConnection fun _ => 2000000] = some s ∧
      (clockOf (-1) 4 1 (fun _ => (true, 0))
        [.produceConnection true 0, .recycleConnection fun _ => 2000000]).Pairwise (· ≤ ·) ∧
      s.connQueue = [⟨0, true, 0⟩] ∧ u.examined (fun _ => 2000000) = [] ∧
      ¬ u.RecyclesExactly fun _ => 2000000 := by
  refine ⟨_, _, rfl, rfl, by decide, rfl, rfl, fun hu => ?_⟩
  rcases hu.ends with hle | ⟨k, hlast, -⟩
  · exact absurd hle (by decide)
  · cases hlast

end ConnectionPool

end TinyNetwork
