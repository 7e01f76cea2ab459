import TinyNetwork.Mysql.ConnectionPool
import Mathlib.Data.List.Count
import Mathlib.Data.List.Range
import Mathlib.Order.Lattice

/-!
# Where the connections of the pool are, and how many the pool counts

`Ledger`: every connection ever made is in one place, idle, lent out or deleted, and `currentSize_`
exceeds the number of live connections by the number of connections ever made, because
`addConnection` and its callers both count.

`accounting_iff`: the counter is right throughout a run if and only if no connection is ever made.
`exclusive_ownership`: a counter that is too large still bounds the number of live connections.
-/

namespace TinyNetwork

open Lts

namespace ConnectionPool

/-- The names of the connections lent out. -/
def lentIds (s : ConnectionPool) : List ℕ := s.lent.map fun p => p.2.id

/-- The names of all connections, place by place. -/
def places (s : ConnectionPool) : List ℕ := s.connQueue.map MysqlConn.id ++ s.lentIds ++ s.deleted

/-! ### How many connections are alive -/

/-- What the recycler deletes is the front of the queue. -/
theorem recycleLoop_split (minSize maxIdleTime : ℤ) (now : ℕ → ℤ) (i : ℕ)
    (conns : List MysqlConn) :
    conns = (recycleLoop minSize maxIdleTime now i conns).2 ++
      (recycleLoop minSize maxIdleTime now i conns).1 := by
  induction conns generalizing i with
  | nil => rfl
  | cons conn rest ih =>
    rw [recycleLoop]
    split_ifs
    · exact congrArg (conn :: ·) (ih (i + 1))
    · rfl
    · rfl

theorem live_addConnection (s : ConnectionPool) (connected : Bool) (now : ℤ) :
    ((s.addConnection connected now).countUp).live = s.live + 1 := by
  simp only [ConnectionPool.addConnection, countUp, live, List.length_append,
    List.length_singleton]
  omega

theorem live_recycleConnection (s : ConnectionPool) (now : ℕ → ℤ) :
    (s.recycleConnection now).live +
      (recycleLoop s.minSize s.maxIdleTime now 0 s.connQueue).2.length = s.live := by
  have hlen := congrArg List.length (recycleLoop_split s.minSize s.maxIdleTime now 0 s.connQueue)
  rw [List.length_append] at hlen
  simp only [ConnectionPool.recycleConnection, live]
  omega

theorem live_release {s : ConnectionPool} {c : ClientId} {conn : MysqlConn}
    (hmem : (c, conn) ∈ s.lent) (now : ℤ) : (s.release c conn now).live = s.live := by
  have hlen := List.length_erase_of_mem hmem
  have hpos := List.length_pos_of_mem hmem
  simp only [ConnectionPool.release, live, List.length_append, List.length_singleton, hlen]
  omega

/-- What `getConnection` leaves alone. -/
structure Kept (s t : ConnectionPool) : Prop where
  minSize : t.minSize = s.minSize
  maxSize : t.maxSize = s.maxSize
  currentSize : t.currentSize = s.currentSize
  nextId : t.nextId = s.nextId
  live : t.live = s.live

/-- Lending a connection keeps it alive. -/
theorem getConnection_frame (s : ConnectionPool) (c : ClientId) : Kept s (s.getConnection c) := by
  unfold ConnectionPool.getConnection
  cases hqueue : s.connQueue with
  | nil => exact ⟨rfl, rfl, rfl, rfl, by simp [live, hqueue]⟩
  | cons conn rest =>
    refine ⟨rfl, rfl, rfl, rfl, ?_⟩
    simp only [notifyAll, live, hqueue, List.length_append, List.length_cons, List.length_nil]
    omega

/-- The queue that a pass leaves is the end of the one that it found. -/
theorem connQueue_recycleConnection_suffix (s : ConnectionPool) (now : ℕ → ℤ) :
    (s.recycleConnection now).connQueue <:+ s.connQueue :=
  ⟨_, (recycleLoop_split s.minSize s.maxIdleTime now 0 s.connQueue).symm⟩

theorem connQueue_getConnection_suffix (s : ConnectionPool) (c : ClientId) :
    (s.getConnection c).connQueue <:+ s.connQueue := by
  unfold ConnectionPool.getConnection
  cases hqueue : s.connQueue with
  | nil => exact List.suffix_refl _
  | cons conn rest => exact List.suffix_cons conn rest

/-! ### The books -/

/-- The books of the pool. -/
structure Ledger (s : ConnectionPool) : Prop where
  places : s.places.Perm (List.range s.nextId)
  size : s.currentSize = s.live + s.nextId

/-- A connection is made and counted twice. -/
theorem Ledger.addConnection {s : ConnectionPool} (hs : Ledger s) (connected : Bool) (now : ℤ) :
    Ledger ((s.addConnection connected now).countUp) := by
  constructor
  · have hconns : ((s.addConnection connected now).countUp).places =
        (s.connQueue ++ [(⟨s.nextId, connected, now⟩ : MysqlConn)]).map MysqlConn.id ++
          s.lentIds ++ s.deleted := rfl
    show ((s.addConnection connected now).countUp).places.Perm (List.range (s.nextId + 1))
    rw [hconns, List.range_succ, List.map_append, List.append_assoc, List.append_assoc]
    -- the new name stands behind the queue on one side and at the end on the other
    refine List.Perm.trans ?_ (hs.places.append_right [s.nextId])
    rw [ConnectionPool.places, List.append_assoc, List.append_assoc, ← List.append_assoc s.lentIds]
    exact List.Perm.append_left _ List.perm_append_comm
  · have hsize := hs.size
    rw [live_addConnection]
    simp only [ConnectionPool.addConnection, countUp]
    omega

theorem Ledger.notifyAll {s : ConnectionPool} (hs : Ledger s) : Ledger s.notifyAll :=
  ⟨hs.places, hs.size⟩

theorem Ledger.recycleConnection {s : ConnectionPool} (hs : Ledger s) (now : ℕ → ℤ) :
    Ledger (s.recycleConnection now) := by
  constructor
  · -- the names move from the front of the queue to the deleted ones
    have hsplit := recycleLoop_split s.minSize s.maxIdleTime now 0 s.connQueue
    have hplaces := hs.places
    unfold ConnectionPool.recycleConnection
    generalize recycleLoop s.minSize s.maxIdleTime now 0 s.connQueue = r at hsplit ⊢
    show ((r.1.map MysqlConn.id ++ s.lentIds) ++ (s.deleted ++ r.2.map MysqlConn.id)).Perm
      (List.range s.nextId)
    refine List.Perm.trans ?_ hplaces
    rw [ConnectionPool.places, hsplit, List.map_append, ← List.append_assoc]
    refine List.perm_append_comm.trans ?_
    simp only [List.append_assoc, List.Perm.refl]
  · have hlive := s.live_recycleConnection now
    have hsize := hs.size
    show s.currentSize - (recycleLoop s.minSize s.maxIdleTime now 0 s.connQueue).2.length = _
    show _ = ((s.recycleConnection now).live : ℤ) + s.nextId
    omega

theorem Ledger.getConnection {s : ConnectionPool} (hs : Ledger s) (c : ClientId) :
    Ledger (s.getConnection c) := by
  have hkept := s.getConnection_frame c
  refine ⟨?_, by rw [hkept.currentSize, hkept.live, hkept.nextId, hs.size]⟩
  have hplaces := hs.places
  unfold ConnectionPool.getConnection
  cases hqueue : s.connQueue with
  | nil => simpa [ConnectionPool.places, lentIds, hqueue] using hplaces
  | cons conn rest =>
    -- the name moves from the front of the queue to the end of those lent out
    refine List.Perm.trans ?_ hplaces
    simp only [ConnectionPool.places, ConnectionPool.notifyAll, lentIds, hqueue, List.map_append,
      List.map_cons, List.map_nil, List.append_assoc, List.cons_append, List.nil_append]
    rw [← List.append_assoc]
    refine List.perm_middle.trans (List.Perm.cons _ ?_)
    rw [List.append_assoc]

theorem Ledger.release {s : ConnectionPool} (hs : Ledger s) {c : ClientId} {conn : MysqlConn}
    (hmem : (c, conn) ∈ s.lent) (now : ℤ) : Ledger (s.release c conn now) := by
  have hlent : s.lentIds.Perm (conn.id :: (s.lent.erase (c, conn)).map fun p => p.2.id) :=
    (List.perm_cons_erase hmem).map (fun p : ClientId × MysqlConn => p.2.id)
  constructor
  · refine List.Perm.trans ?_ hs.places
    have hback : (s.release c conn now).places =
        (s.connQueue.map MysqlConn.id ++ [conn.id]) ++
          ((s.lent.erase (c, conn)).map fun p => p.2.id) ++ s.deleted := by
      simp [ConnectionPool.places, lentIds, ConnectionPool.release, MysqlConn.refreshAliveTime]
    rw [hback, ConnectionPool.places]
    refine List.Perm.append_right _ ?_
    rw [List.append_assoc]
    exact List.Perm.append_left _ hlent.symm
  · rw [live_release hmem]
    exact hs.size

/-- The step makes a connection: the producer finds no idle one, and room for one more. -/
def Adds (s : ConnectionPool) : Label → Prop
  | .produceConnection _ _ => s.connQueue = [] ∧ s.currentSize < s.maxSize
  | _ => False

/-- What a step can do: lend a connection or wait for one, take one back, make one or none, delete
some. -/
inductive StepTo (s : ConnectionPool) : Label → ConnectionPool → Prop
  | getConnection (c : ClientId) : StepTo s (.getConnection c) (s.getConnection c)
  | wake (c : ClientId) : StepTo s (.wake c) (s.getConnection c)
  | release (c : ClientId) (conn : MysqlConn) (now : ℤ) (hmem : (c, conn) ∈ s.lent) :
      StepTo s (.release c conn now) (s.release c conn now)
  | produces (connected : Bool) (now : ℤ) (hadds : s.Adds (.produceConnection connected now)) :
      StepTo s (.produceConnection connected now)
        ((s.addConnection connected now).countUp).notifyAll
  | rests (connected : Bool) (now : ℤ) (hrests : ¬ s.Adds (.produceConnection connected now)) :
      StepTo s (.produceConnection connected now) s
  | recycleConnection (now : ℕ → ℤ) : StepTo s (.recycleConnection now) (s.recycleConnection now)

theorem stepTo_of_step {s t : ConnectionPool} {l : Label} (h : step s l = some t) :
    StepTo s l t := by
  cases l with
  | getConnection c =>
    obtain ⟨-, heq⟩ := Option.ite_none_right_eq_some.1 h
    cases heq
    exact .getConnection c
  | wake c =>
    obtain ⟨-, heq⟩ := Option.ite_none_left_eq_some.1 h
    cases heq
    exact .wake c
  | release c conn now =>
    obtain ⟨hmem, heq⟩ := Option.ite_none_right_eq_some.1 h
    cases heq
    exact .release c conn now hmem
  | produceConnection connected now =>
    cases h
    simp only [ConnectionPool.produceConnection, List.isEmpty_iff]
    split_ifs with hidle hroom
    · exact .produces connected now ⟨hidle, hroom⟩
    · exact .rests connected now fun hadds => hroom hadds.2
    · exact .rests connected now fun hadds => hidle hadds.1
  | recycleConnection now =>
    cases h
    exact .recycleConnection now

theorem ledger_step {s t : ConnectionPool} {l : Label} (hs : Ledger s)
    (h : step s l = some t) : Ledger t := by
  cases stepTo_of_step h with
  | getConnection c => exact hs.getConnection c
  | wake c => exact hs.getConnection c
  | release c conn now hmem => exact hs.release hmem now
  | produces connected now hadds => exact (hs.addConnection connected now).notifyAll
  | rests connected now hrests => exact hs
  | recycleConnection now => exact hs.recycleConnection now

/-! ### The constructor -/

/-- The state in which the constructor starts. -/
def empty (minSize maxSize maxIdleTime : ℤ) : ConnectionPool where
  minSize := minSize
  maxSize := maxSize
  maxIdleTime := maxIdleTime

theorem ledger_fill (minSize maxSize maxIdleTime : ℤ) (answers : ℕ → Bool × ℤ) (n : ℕ) :
    Ledger ((empty minSize maxSize maxIdleTime).fill answers n) ∧
      ((empty minSize maxSize maxIdleTime).fill answers n).live = n ∧
      ((empty minSize maxSize maxIdleTime).fill answers n).nextId = n := by
  induction n with
  | zero => exact ⟨⟨List.Perm.refl _, rfl⟩, rfl, rfl⟩
  | succ n ih =>
    obtain ⟨hledger, hlive, hid⟩ := ih
    refine ⟨hledger.addConnection _ _, ?_, ?_⟩
    · rw [fill, live_addConnection, hlive]
    · simp only [fill, ConnectionPool.addConnection, countUp, hid]

theorem ledger_construct (minSize maxSize maxIdleTime : ℤ) (answers : ℕ → Bool × ℤ) :
    Ledger (construct minSize maxSize maxIdleTime answers) ∧
      (construct minSize maxSize maxIdleTime answers).live = minSize.toNat ∧
      (construct minSize maxSize maxIdleTime answers).nextId = minSize.toNat :=
  ledger_fill minSize maxSize maxIdleTime answers minSize.toNat

theorem connQueue_fill (minSize maxSize maxIdleTime : ℤ) (answers : ℕ → Bool × ℤ) (n : ℕ) :
    ((empty minSize maxSize maxIdleTime).fill answers n).connQueue =
      (List.range n).map fun i => ⟨i, (answers i).1, (answers i).2⟩ := by
  induction n with
  | zero => rfl
  | succ n ih =>
    have hid := (ledger_fill minSize maxSize maxIdleTime answers n).2.2
    simp only [fill, ConnectionPool.addConnection, countUp, ih, hid, List.range_succ, List.map_append,
      List.map_cons, List.map_nil]

/-! ### The counter -/

/-- The counter says how many connections are alive. -/
def Counted (s : ConnectionPool) : Prop := s.currentSize = s.live

theorem counted_iff {s : ConnectionPool} (hs : Ledger s) : s.Counted ↔ s.nextId = 0 := by
  have hsize := hs.size
  unfold Counted
  omega

theorem nextId_step {s t : ConnectionPool} {l : Label} (h : step s l = some t) :
    (s.Adds l ∧ t.nextId = s.nextId + 1) ∨ (¬ s.Adds l ∧ t.nextId = s.nextId) := by
  cases stepTo_of_step h with
  | getConnection c => exact .inr ⟨id, (s.getConnection_frame c).nextId⟩
  | wake c => exact .inr ⟨id, (s.getConnection_frame c).nextId⟩
  | release c conn now hmem => exact .inr ⟨id, rfl⟩
  | produces connected now hadds => exact .inl ⟨hadds, rfl⟩
  | rests connected now hrests => exact .inr ⟨hrests, rfl⟩
  | recycleConnection now => exact .inr ⟨id, rfl⟩

/-- **The counter is right** in every state of a run if and only if the pool starts empty and no
step of the run makes a connection. -/
theorem accounting_iff (minSize maxSize maxIdleTime : ℤ) (answers : ℕ → Bool × ℤ)
    {ls : List Label} {s : ConnectionPool}
    (h : run step (construct minSize maxSize maxIdleTime answers) ls = some s) :
    (∀ ms u, ms <+: ls →
      run step (construct minSize maxSize maxIdleTime answers) ms = some u → u.Counted) ↔
    minSize ≤ 0 ∧ Along step (fun u l => ¬ u.Adds l)
      (construct minSize maxSize maxIdleTime answers) ls := by
  obtain ⟨hledger, -, hid⟩ := ledger_construct minSize maxSize maxIdleTime answers
  have hstart : (construct minSize maxSize maxIdleTime answers).Counted ↔ minSize ≤ 0 := by
    rw [counted_iff hledger, hid, Int.toNat_eq_zero]
  have hstep : ∀ u l t, Ledger u → u.Counted → step u l = some t →
      (t.Counted ↔ ¬ u.Adds l) := by
    intro u l t hu hcounted hstep
    rw [counted_iff hu] at hcounted
    rw [counted_iff (ledger_step hu hstep)]
    rcases nextId_step hstep with ⟨hadds, hnext⟩ | ⟨hadds, hnext⟩
    · exact iff_of_false (by omega) (not_not_intro hadds)
    · exact iff_of_true (by omega) hadds
  constructor
  · intro hall
    have hcounted := hall [] _ (List.nil_prefix) rfl
    exact ⟨hstart.1 hcounted, (forall_prefix_iff_along (fun _ _ _ hu => ledger_step hu) hstep
      hledger hcounted h).1 hall⟩
  · rintro ⟨hmin, halong⟩
    exact (forall_prefix_iff_along (fun _ _ _ hu => ledger_step hu) hstep hledger
      (hstart.2 hmin) h).2 halong

/-- A pool that may hold no connection. -/
theorem accounting_none :
    ∃ s, run step (construct 0 0 60 fun _ => (true, 0))
        [.produceConnection true 5, .getConnection 1] = some s ∧ s.Counted := by
  have hrun : run step (construct 0 0 60 fun _ => (true, 0))
      [.produceConnection true 5, .getConnection 1] = some _ := rfl
  have hall := (accounting_iff 0 0 60 (fun _ => (true, 0)) hrun).2 ⟨le_rfl, ?_, ?_⟩
  · exact ⟨_, hrun, hall _ _ (List.prefix_refl _) hrun⟩
  · rintro ⟨-, hroom⟩
    exact absurd hroom (by decide)
  · intro t ht
    exact ⟨id, fun u hu => trivial⟩

/-- One connection made by the constructor is counted twice. -/
theorem counted_twice :
    (construct 1 1 60 fun _ => (true, 0)).live = 1 ∧
      (construct 1 1 60 fun _ => (true, 0)).currentSize = 2 ∧
      ¬ (construct 1 1 60 fun _ => (true, 0)).Counted := by
  refine ⟨rfl, rfl, ?_⟩
  show ¬ ((2 : ℤ) = (1 : ℕ))
  decide

/-! ### Ownership and capacity -/

/-- The books, the configuration and the bound on the live connections. -/
structure Bounded (minSize maxSize : ℤ) (s : ConnectionPool) : Prop where
  ledger : Ledger s
  minSize_eq : s.minSize = minSize
  maxSize_eq : s.maxSize = maxSize
  live_le : (s.live : ℤ) ≤ max (max minSize maxSize) 0

theorem Bounded.getConnection {minSize maxSize : ℤ} {s : ConnectionPool}
    (hs : Bounded minSize maxSize s) (c : ClientId) : Bounded minSize maxSize (s.getConnection c) := by
  have hkept := s.getConnection_frame c
  have hlive := hs.live_le
  exact ⟨hs.ledger.getConnection c, hkept.minSize.trans hs.minSize_eq,
    hkept.maxSize.trans hs.maxSize_eq, by rwa [hkept.live]⟩

theorem bounded_step {minSize maxSize : ℤ} {s t : ConnectionPool} {l : Label}
    (hs : Bounded minSize maxSize s) (h : step s l = some t) : Bounded minSize maxSize t := by
  have hledger := ledger_step hs.ledger h
  have hlive := hs.live_le
  cases stepTo_of_step h with
  | getConnection c => exact hs.getConnection c
  | wake c => exact hs.getConnection c
  | release c conn now hmem =>
    exact ⟨hledger, hs.minSize_eq, hs.maxSize_eq, by rwa [live_release hmem]⟩
  | produces connected now hadds =>
    refine ⟨hledger, hs.minSize_eq, hs.maxSize_eq, ?_⟩
    -- the counter is at least the number of live connections, and there was room under it
    have hroom : s.currentSize < s.maxSize := hadds.2
    have hsize := hs.ledger.size
    have hmax := hs.maxSize_eq
    have hle : maxSize ≤ max (max minSize maxSize) 0 :=
      (le_max_right minSize maxSize).trans (le_max_left _ _)
    have hadded := s.live_addConnection connected now
    show (((s.addConnection connected now).countUp).live : ℤ) ≤ _
    omega
  | rests connected now hrests => exact hs
  | recycleConnection now =>
    refine ⟨hledger, hs.minSize_eq, hs.maxSize_eq, ?_⟩
    have hrecycled := s.live_recycleConnection now
    omega

theorem bounded_construct (minSize maxSize maxIdleTime : ℤ) (answers : ℕ → Bool × ℤ) :
    Bounded minSize maxSize (construct minSize maxSize maxIdleTime answers) := by
  obtain ⟨hledger, hstart, -⟩ := ledger_construct minSize maxSize maxIdleTime answers
  have hconfig : ∀ n, ((empty minSize maxSize maxIdleTime).fill answers n).minSize = minSize ∧
      ((empty minSize maxSize maxIdleTime).fill answers n).maxSize = maxSize := by
    intro n
    induction n with
    | zero => exact ⟨rfl, rfl⟩
    | succ n ih => exact ih
  refine ⟨hledger, (hconfig _).1, (hconfig _).2, ?_⟩
  have hle : minSize ≤ max minSize maxSize := le_max_left _ _
  rw [hstart]
  omega

/-- **Exclusive ownership and capacity.**  In every state of every run each connection that was
made is in exactly one place: once in `connQueue_`, held by one client, or deleted once; and the
number of live connections is at most the larger of the two sizes. -/
theorem exclusive_ownership {minSize maxSize : ℤ} (hmax : 0 ≤ maxSize) (maxIdleTime : ℤ)
    (answers : ℕ → Bool × ℤ) {ls : List Label} {s : ConnectionPool}
    (h : run step (construct minSize maxSize maxIdleTime answers) ls = some s) :
    (∀ i, (s.connQueue.map MysqlConn.id).count i + s.lentIds.count i + s.deleted.count i =
      if i < s.nextId then 1 else 0) ∧
    (s.live : ℤ) ≤ max minSize maxSize := by
  have hs : Bounded minSize maxSize s :=
    run_preserves (fun _ _ _ hu hstep => bounded_step hu hstep)
      (bounded_construct minSize maxSize maxIdleTime answers) h
  constructor
  · intro i
    have hcount := hs.ledger.places.count_eq i
    rw [places, List.count_append, List.count_append, List.nodup_range.count] at hcount
    simpa using hcount
  · have hlive := hs.live_le
    have hle : maxSize ≤ max minSize maxSize := le_max_right _ _
    omega

/-- Two clients, one of which gives its connection back. -/
theorem exclusive_ownership_two :
    ∃ s, run step (construct 2 4 60 fun _ => (true, 0))
        [.getConnection 1, .getConnection 2, .release 1 ⟨0, true, 0⟩ 7,
          .produceConnection true 8] = some s ∧
      (s.connQueue.map MysqlConn.id).count 0 + s.lentIds.count 0 + s.deleted.count 0 = 1 ∧
      (s.live : ℤ) ≤ 4 := by
  have hrun : run step (construct 2 4 60 fun _ => (true, 0))
      [.getConnection 1, .getConnection 2, .release 1 ⟨0, true, 0⟩ 7,
        .produceConnection true 8] = some _ := rfl
  obtain ⟨hplace, hlive⟩ := exclusive_ownership (by decide) 60 (fun _ => (true, 0)) hrun
  exact ⟨_, hrun, hplace 0, hlive⟩

end ConnectionPool

end TinyNetwork
