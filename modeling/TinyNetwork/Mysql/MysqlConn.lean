import TinyNetwork.Mysql.ConnectionPool
import TinyNetwork.Lib.Bytes
import Mathlib.Data.List.Basic

/-!
# The statements of `class MysqlConn` (src/mysql/MysqlConn.h, src/mysql/MysqlConn.cpp)

The client library is a session: `mysql_query` executes a statement and leaves its result with the
session, `mysql_store_result` takes that result, and `mysql_fetch_row` goes through its rows.  What
a statement does on the server is a parameter, `execute`.

`query(sql)` stores a result without executing `sql`: `query_rows_iff` says when `next()` shows the
rows of `sql` all the same.
-/

namespace TinyNetwork

open Lts

namespace MysqlConn

/-- A row of a result; a field that is missing is NULL. -/
abbrev Row := List (Option Bytes)

/-- The result of a statement that returns rows. -/
structure ResultSet where
  numFields : ℕ
  rows : List Row
  length_row : ∀ row ∈ rows, row.length = numFields

/-- What becomes of a statement: the server reports an error, or it has executed it. -/
inductive Outcome
  | error
  | executed (result : Option ResultSet)

def Outcome.result : Outcome → Option ResultSet
  | .error => none
  | .executed result => result

/-- The rows of a result, if there is one. -/
def rowsOf (result : Option ResultSet) : List Row := result.elim [] ResultSet.rows

/-! ### The client library -/

/-- `MYSQL`: the database behind the connection, and a result that was not stored yet. -/
structure Mysql (DB : Type*) where
  db : DB
  pending : Option ResultSet := none

/-- `MYSQL_RES`: `rows` are those not fetched yet. -/
structure MysqlRes extends ResultSet where
  currentRow : Option Row := none

/-- A `MYSQL_ROW` points into the result it was fetched from. -/
inductive MysqlRow
  | null
  | row (r : Row)
  | freed

section

variable {DB : Type*}

/-- `mysql_query(conn, sql)`, and whether it returns 0. -/
def mysqlQuery (execute : DB → Bytes → DB × Outcome) (conn : Mysql DB) (sql : Bytes) :
    Mysql DB × Bool :=
  let r := execute conn.db sql
  (⟨r.1, r.2.result⟩,
    match r.2 with
    | .error => false
    | .executed _ => true)

def mysqlStoreResult (conn : Mysql DB) : Mysql DB × Option MysqlRes :=
  ({ conn with pending := none }, conn.pending.map fun r => { r with currentRow := none })

/-- `mysql_fetch_row(res)`; there is no row, and no current row, behind the last one. -/
def mysqlFetchRow (res : MysqlRes) : MysqlRes × Option Row :=
  let row := res.rows.head?
  ({ res with
      rows := res.rows.tail
      length_row := fun q hq => res.length_row q (List.mem_of_mem_tail hq)
      currentRow := row }, row)

/-- `mysql_fetch_lengths(res)`; NULL when there is no current row. -/
def mysqlFetchLengths (res : MysqlRes) : Option (List ℕ) :=
  res.currentRow.map fun r => r.map fun field => (field.getD []).length

end

/-- `mysql_free_result`, for the pointers into the result. -/
def MysqlRow.free : MysqlRow → MysqlRow
  | .null => .null
  | _ => .freed

/-! ### The class -/

/-- An object of the class. -/
structure Object (DB : Type*) where
  conn : Option (Mysql DB)
  res : Option MysqlRes := none
  row : MysqlRow := .null

/-- A call of a member function. -/
inductive Label
  | update (sql : Bytes)
  | query (sql : Bytes)
  | next
  | value (index : ℤ)
  deriving DecidableEq

namespace Object

variable {DB : Type*}

def freeResult (o : Object DB) : Object DB :=
  match o.res with
  | none => o
  | some _ => { o with res := none, row := o.row.free }

def update (execute : DB → Bytes → DB × Outcome) (o : Object DB) (sql : Bytes) :
    Object DB × Bool :=
  match o.conn with
  | none => (o, false)
  | some conn =>
    let r := mysqlQuery execute conn sql
    ({ o with conn := some r.1 }, r.2)

/-- `query(sql)`; the statement is not used. -/
def query (o : Object DB) (_sql : Bytes) : Object DB × Bool :=
  match o.conn with
  | none => (o, false)
  | some conn =>
    let o := o.freeResult
    let r := mysqlStoreResult conn
    ({ o with conn := some r.1, res := r.2 }, true)

def next (o : Object DB) : Object DB × Bool :=
  match o.res with
  | none => (o, false)
  | some res =>
    let r := mysqlFetchRow res
    match r.2 with
    | none => ({ o with res := some r.1, row := .null }, false)
    | some row => ({ o with res := some r.1, row := .row row }, true)

/-- `value(index)`; `none` where it follows a null pointer or one into a freed result. -/
def value (o : Object DB) (index : ℤ) : Option Bytes :=
  match o.res with
  | none => none
  | some res =>
    if index < 0 ∨ (res.numFields : ℤ) ≤ index then some []
    else
      match o.row with
      | .row r => do
        let field ← r[index.toNat]?
        let lengths ← mysqlFetchLengths res
        let length ← lengths[index.toNat]?
        return (field.getD []).take length
      | _ => none

/-- A connection that was just opened. -/
def connected (db : DB) : Object DB where
  conn := some { db := db }

variable (execute : DB → Bytes → DB × Outcome)

/-- A call; one of `value` that is undefined ends the run. -/
def step (o : Object DB) : Label → Option (Object DB)
  | .update sql => some (o.update execute sql).1
  | .query sql => some (o.query sql).1
  | .next => some o.next.1
  | .value index => (o.value index).map fun _ => o

/-- The row that a call of `next` shows. -/
def seen (o : Object DB) : Label → List Row
  | .next =>
    match o.next with
    | (⟨_, _, .row r⟩, true) => [r]
    | _ => []
  | _ => []

/-- The rows of executing a statement now. -/
def executedRows (o : Object DB) (sql : Bytes) : List Row :=
  o.conn.elim [] fun conn => rowsOf (execute conn.db sql).2.result

/-- The rows of the result that was not stored yet. -/
def pendingRows (o : Object DB) : List Row := o.conn.elim [] fun conn => rowsOf conn.pending

/-- When `query(sql)` returns true, the calls of `next` behind it show the rows of `sql`, in order,
whatever other calls but further ones of `query` come between them. -/
def ReturnsOwnRows (o : Object DB) (sql : Bytes) : Prop :=
  (o.query sql).2 = true → ∀ ls p, (∀ l ∈ ls, ∀ sql', l ≠ .query sql') →
    run (step execute) (o.query sql).1 ls = some p →
      emitted (step execute) seen (o.query sql).1 ls =
        (o.executedRows execute sql).take (ls.count .next)

/-- The result pending on the connection has the rows of `sql`. -/
def PendingIsOwn (o : Object DB) (sql : Bytes) : Prop := o.pendingRows = o.executedRows execute sql

/-! ### What is pending -/

/-- The results that a call leaves with the session. -/
def leaves (o : Object DB) : Label → List (Option ResultSet)
  | .update sql => o.conn.elim [] fun conn => [(execute conn.db sql).2.result]
  | .query _ => [none]
  | _ => []

theorem conn_next (o : Object DB) : o.next.1.conn = o.conn := by
  unfold next
  cases o.res with
  | none => rfl
  | some res =>
    cases hrow : (mysqlFetchRow res).2 with
    | none => simp [hrow]
    | some r => simp [hrow]

/-- Pending is the result of the last `update` behind the last `query`, if there is one. -/
theorem pending_run {db : DB} {ls : List Label} {o : Object DB}
    (h : run (step execute) (connected db) ls = some o) :
    ∃ conn, o.conn = some conn ∧
      conn.pending = (emitted (step execute) (leaves execute) (connected db) ls).getLast?.join := by
  refine run_history (P := fun ms o => ∃ conn, o.conn = some conn ∧ conn.pending =
    (emitted (step execute) (leaves execute) (connected db) ms).getLast?.join) ⟨_, rfl, rfl⟩ ?_ h
  rintro ms u l v hms ⟨conn, hconn, hpending⟩ hstep
  rw [emitted_concat hms]
  cases l with
  | update sql =>
    cases hstep
    refine ⟨(mysqlQuery execute conn sql).1, by simp [update, hconn], ?_⟩
    simp [leaves, hconn, mysqlQuery]
  | query sql =>
    cases hstep
    refine ⟨(mysqlStoreResult conn).1, by simp [query, hconn], ?_⟩
    simp [leaves, mysqlStoreResult]
  | next =>
    cases hstep
    exact ⟨conn, u.conn_next.trans hconn, by simpa [leaves] using hpending⟩
  | value index =>
    obtain ⟨w, -, rfl⟩ := Option.map_eq_some_iff.1 hstep
    exact ⟨conn, hconn, by simpa [leaves] using hpending⟩

/-! ### What `next` shows -/

/-- The rows of the stored result that were not fetched yet. -/
def left (o : Object DB) : List Row := o.res.elim [] fun res => res.rows

variable {execute}

/-- A call other than `query` takes from these what it shows. -/
theorem left_step {o p : Object DB} {l : Label} (hl : ∀ sql, l ≠ .query sql)
    (h : step execute o l = some p) (n : ℕ) :
    o.left.take ([l].count .next + n) = seen o l ++ p.left.take n := by
  cases l with
  | update sql =>
    have hleft : p.left = o.left := by
      rw [step, Option.some.injEq] at h
      rw [← h]
      unfold update
      cases o.conn <;> rfl
    rw [hleft]
    simp [seen]
  | query sql => exact absurd rfl (hl sql)
  | next =>
    rw [step, Option.some.injEq] at h
    rw [← h]
    unfold seen next left
    cases hres : o.res with
    | none => simp [hres]
    | some res =>
      cases hrows : res.rows with
      | nil => simp [mysqlFetchRow, hrows]
      | cons r rows => simp [mysqlFetchRow, hrows, Nat.add_comm 1 n]
  | value index =>
    obtain ⟨v, -, rfl⟩ := Option.map_eq_some_iff.1 h
    simp [seen]

/-- So do all calls up to the next one of `query`. -/
theorem seen_run {o p : Object DB} {ls : List Label} (hls : ∀ l ∈ ls, ∀ sql, l ≠ .query sql)
    (h : run (step execute) o ls = some p) :
    emitted (step execute) seen o ls = o.left.take (ls.count .next) := by
  induction ls generalizing o with
  | nil => simp [emitted]
  | cons l ls ih =>
    obtain ⟨u, hu, hrest⟩ := run_cons_eq_some.1 h
    have hshown := left_step (hls l List.mem_cons_self) hu (ls.count .next)
    have hlater := ih (fun m hm => hls m (List.mem_cons_of_mem l hm)) hrest
    have hcount : (l :: ls).count .next = [l].count .next + ls.count .next := by
      rw [← List.count_append, List.singleton_append]
    rw [emitted, hu, hcount, hshown, ← hlater]

/-- Behind a call of `next` that shows a row, `value` reads its fields. -/
theorem value_next {o : Object DB} {r : Row} (h : seen o .next = [r]) {index : ℤ}
    (hindex : 0 ≤ index) {field : Option Bytes} (hfield : r[index.toNat]? = some field) :
    o.next.1.value index = some (field.getD []) := by
  obtain ⟨hlt, -⟩ := List.getElem?_eq_some_iff.1 hfield
  unfold seen next at h
  unfold next
  cases hres : o.res with
  | none => simp [hres] at h
  | some res =>
    cases hrows : res.rows with
    | nil => simp [hres, mysqlFetchRow, hrows] at h
    | cons q rows =>
      obtain rfl : q = r := by simpa [hres, mysqlFetchRow, hrows] using h
      have hlength : q.length = res.numFields :=
        res.length_row q (by rw [hrows]; exact List.mem_cons_self)
      have hinside : ¬ (index < 0 ∨ (res.numFields : ℤ) ≤ index) := by omega
      simp [value, mysqlFetchRow, mysqlFetchLengths, hrows, hinside, hfield]

/-- `next` may be called any number of times. -/
theorem run_next (o : Object DB) (n : ℕ) :
    ∃ p, run (step execute) o (List.replicate n .next) = some p := by
  induction n generalizing o with
  | zero => exact ⟨o, rfl⟩
  | succ n ih =>
    obtain ⟨p, hp⟩ := ih o.next.1
    exact ⟨p, run_cons_eq_some.2 ⟨o.next.1, rfl, hp⟩⟩

/-- `query` stores what is pending. -/
theorem left_query {o : Object DB} {sql : Bytes} (h : (o.query sql).2 = true) :
    (o.query sql).1.left = o.pendingRows := by
  unfold query at h ⊢
  cases hconn : o.conn with
  | none =>
    rw [hconn] at h
    cases h
  | some conn =>
    unfold left pendingRows mysqlStoreResult
    simp only [hconn, Option.elim_some]
    cases conn.pending <;> rfl

/-- Without a connection there is nothing to execute and nothing pending. -/
theorem query_fst {o : Object DB} {sql : Bytes} (h : (o.query sql).2 = false) : o.conn = none := by
  unfold query at h
  cases hconn : o.conn with
  | none => rfl
  | some conn =>
    rw [hconn] at h
    cases h

theorem returnsOwnRows_iff (o : Object DB) (sql : Bytes) :
    ReturnsOwnRows execute o sql ↔ PendingIsOwn execute o sql := by
  unfold ReturnsOwnRows PendingIsOwn
  constructor
  · intro h
    cases hok : (o.query sql).2 with
    | false =>
      rw [pendingRows, executedRows, query_fst hok]
      rfl
    | true =>
      -- as many calls of `next` as either side has rows
      let n := max o.pendingRows.length (o.executedRows execute sql).length
      obtain ⟨p, hp⟩ : ∃ p, run (step execute) (o.query sql).1 (List.replicate n .next) = some p :=
        run_next _ n
      have hnext : ∀ l ∈ List.replicate n Label.next, ∀ sql', l ≠ .query sql' := by
        intro l hl sql'
        rw [List.eq_of_mem_replicate hl]
        exact Label.noConfusion
      have hshown := (seen_run hnext hp).symm.trans (h hok _ p hnext hp)
      rw [left_query hok, List.count_replicate_self, List.take_of_length_le (le_max_left _ _),
        List.take_of_length_le (le_max_right _ _)] at hshown
      exact hshown
  · intro h hok ls p hls hrun
    rw [seen_run hls hrun, left_query hok, h]

/-! ### Every sequence of calls -/

/-- **The rows of a query**, over all sequences of calls on a connection and whatever the statements
do on the server: every `query(sql)` that returns true has the rows of `sql` shown, if and only if
at every one of them the result pending on the connection has just these rows. -/
theorem query_rows_iff (db : DB) (ls : List Label) :
    Along (step execute) (fun o l => ∀ sql, l = .query sql → ReturnsOwnRows execute o sql)
        (connected db) ls ↔
      Along (step execute) (fun o l => ∀ sql, l = .query sql → PendingIsOwn execute o sql)
        (connected db) ls := by
  refine along_congr (I := fun _ => True) (fun _ _ _ _ _ => trivial) (fun o l _ => ?_) trivial ls
  exact forall_congr' fun sql => imp_congr_right fun _ => returnsOwnRows_iff o sql

/-- A table of one row. -/
def userTable : ResultSet where
  numFields := 2
  rows := [[some (Bytes.ascii "1"), some (Bytes.ascii "zhang san")]]
  length_row := by simp

/-- A server that knows one statement. -/
def selectFrom (table : ResultSet) (sql : Bytes) : ResultSet × Outcome :=
  (table, if sql = Bytes.ascii "select * from user" then .executed (some table) else .error)

/-- The table is queried, and no row is shown. -/
theorem query_shows_nothing :
    ¬ ReturnsOwnRows selectFrom (connected userTable) (Bytes.ascii "select * from user") := by
  intro h
  have hshown := h rfl [.next] _ (by simp) rfl
  exact absurd hshown (by decide)

end Object

end MysqlConn

end TinyNetwork
