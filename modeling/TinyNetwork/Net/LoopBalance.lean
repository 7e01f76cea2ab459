import TinyNetwork.Net.TcpServer
import Mathlib.Data.Int.CardIntervalMod

/-!
# How connections are spread over the loops

`newConnection` takes its loop from `EventLoopThreadPool::getNextLoop()`
(src/net/EventLoopThreadPool.cpp), which goes round `loops_`.  `loops_balanced`: in every run of a
server, connection `c` lives on loop `c % numThreads + 1`, so that the loops differ by at most one
connection; without I/O loops all of them live on the base loop, and otherwise none.
-/

namespace TinyNetwork

open Lts

namespace TcpServer

/-- The loops of the connections, in the order of acceptance. -/
def assigned (s : TcpServer) : List LoopId := s.conns.map Conn.loop

/-- The number of connections that were given to loop `k`. -/
def load (s : TcpServer) (k : LoopId) : ℕ := s.assigned.count k

/-- Nothing changes the loop of a connection, or the place in `loops_`. -/
structure Same (s t : TcpServer) : Prop where
  assigned : t.assigned = s.assigned
  numThreads : t.numThreads = s.numThreads
  next : t.next = s.next

theorem Same.trans {s t u : TcpServer} (hst : Same s t) (htu : Same t u) : Same s u :=
  ⟨htu.assigned.trans hst.assigned, htu.numThreads.trans hst.numThreads, htu.next.trans hst.next⟩

section

variable {s t : TcpServer} {c : ℕ} {conn : Conn} {thread k : LoopId} {f : Functor}

theorem same_called (hc : s.conns[c]? = some conn) (action : Lifecycle.Action)
    (tcp : TcpConnection) : Same s (s.called thread c conn action tcp) := by
  refine ⟨?_, rfl, rfl⟩
  obtain ⟨hlt, hconn⟩ := List.getElem?_eq_some_iff.1 hc
  have hlt' : c < s.assigned.length := by simpa [assigned] using hlt
  have hself : conn.loop = s.assigned[c] := by simp [assigned, hconn]
  simp only [assigned, called, List.map_set]
  rw [hself]
  exact List.set_getElem_self _

theorem same_execute (h : s.execute thread f = some t) : Same s t := by
  cases f with
  | connectEstablished c =>
    simp only [execute, connectEstablished, Option.bind_eq_bind, Option.bind_eq_some_iff] at h
    obtain ⟨conn, hc, heq⟩ := h
    cases heq
    exact same_called hc _ _
  | connectDestroyed c =>
    simp only [execute, connectDestroyed, Option.bind_eq_bind, Option.bind_eq_some_iff] at h
    obtain ⟨conn, hc, r, -, heq⟩ := h
    cases heq
    exact same_called hc _ _
  | removeConnectionInLoop c =>
    simp only [execute, removeConnectionInLoop, Option.bind_eq_bind, Option.bind_eq_some_iff] at h
    obtain ⟨conn, hc, heq⟩ := h
    cases heq
    have hcalled : Same s (s.called thread c conn .removeConnectionInLoop conn.tcp) :=
      same_called hc _ _
    exact ⟨hcalled.assigned, hcalled.numThreads, hcalled.next⟩
  | other =>
    cases h
    exact ⟨rfl, rfl, rfl⟩

theorem same_runInLoop (h : s.runInLoop thread k f = some t) : Same s t := by
  unfold runInLoop at h
  split_ifs at h
  · exact same_execute h
  · cases h
    exact ⟨rfl, rfl, rfl⟩

theorem getNextLoop_keeps (s : TcpServer) :
    s.getNextLoop.2.conns = s.conns ∧ s.getNextLoop.2.numThreads = s.numThreads := by
  unfold getNextLoop
  by_cases h : s.numThreads = 0
  · rw [if_pos h]
    exact ⟨rfl, rfl⟩
  · rw [if_neg h]
    exact ⟨rfl, rfl⟩

/-- **What one step does to the assignment**: an accepted connection goes to the next loop. -/
theorem assigned_step {l : Label} (h : step s l = some t) :
    (l ≠ .newConnection ∧ Same s t) ∨
      (l = .newConnection ∧ t.assigned = s.assigned ++ [s.getNextLoop.1] ∧
        t.numThreads = s.numThreads ∧ t.next = s.getNextLoop.2.next) := by
  cases l with
  | newConnection =>
    refine .inr ⟨rfl, ?_⟩
    simp only [step] at h
    split_ifs at h
    have hsame : Same (s.getNextLoop.2.accept s.getNextLoop.1) t := same_runInLoop h
    obtain ⟨hconns, hthreads⟩ := s.getNextLoop_keeps
    refine ⟨?_, hsame.numThreads.trans hthreads, hsame.next⟩
    rw [hsame.assigned, assigned, accept, hconns, List.map_append]
    rfl
  | loop k l =>
    refine .inl ⟨by simp, ?_⟩
    simp only [step] at h
    split_ifs at h
    obtain ⟨e, -, rfl⟩ := Option.map_eq_some_iff.1 h
    exact ⟨rfl, rfl, rfl⟩
  | poll k w channels =>
    refine .inl ⟨by simp, ?_⟩
    simp only [step] at h
    split_ifs at h
    obtain ⟨e, -, rfl⟩ := Option.map_eq_some_iff.1 h
    exact ⟨rfl, rfl, rfl⟩
  | handleEvent c =>
    refine .inl ⟨by simp, ?_⟩
    simp only [step] at h
    split at h
    · rename_i conn hc
      split_ifs at h
      cases h
      exact same_called hc _ _
    · cases h
  | handleClose c =>
    refine .inl ⟨by simp, ?_⟩
    simp only [step] at h
    split at h
    · rename_i conn hc
      split_ifs at h
      exact (same_called hc _ _).trans (same_runInLoop h)
    · cases h
  | nextChannel k =>
    refine .inl ⟨by simp, ?_⟩
    simp only [step] at h
    split_ifs at h
    cases h
    exact ⟨rfl, rfl, rfl⟩
  | runFunctor k =>
    refine .inl ⟨by simp, ?_⟩
    simp only [step] at h
    split_ifs at h
    split at h
    · obtain ⟨e, -, hexec⟩ := Option.bind_eq_some_iff.1 h
      have hsame := same_execute hexec
      exact ⟨hsame.assigned, hsame.numThreads, hsame.next⟩
    · cases h

end

/-- The loop of connection `c`, with `n` I/O loops. -/
def loopOf (n c : ℕ) : LoopId := if n = 0 then baseLoop else c % n + 1

/-- `next_` goes round: it is the remainder of the number of calls. -/
theorem next_mod {n : ℕ} (hn : n ≠ 0) (m : ℕ) :
    (if n ≤ m % n + 1 then 0 else m % n + 1) = (m + 1) % n := by
  have hlt : m % n < n := Nat.mod_lt _ (Nat.pos_of_ne_zero hn)
  split_ifs with hwrap
  · have heq : m % n + 1 = n := by omega
    rw [← Nat.mod_add_mod, heq, Nat.mod_self]
  · rw [← Nat.mod_add_mod, Nat.mod_eq_of_lt (not_le.1 hwrap)]

/-- The connections so far went round the loops. -/
structure Spread (n : ℕ) (s : TcpServer) : Prop where
  numThreads : s.numThreads = n
  assigned : s.assigned = (List.range s.conns.length).map (loopOf n)
  next : n ≠ 0 → s.next = s.conns.length % n

theorem spread_step {n : ℕ} {s t : TcpServer} {l : Label} (hs : Spread n s)
    (h : step s l = some t) : Spread n t := by
  have hlen : ∀ u : TcpServer, u.conns.length = u.assigned.length := fun u => by simp [assigned]
  rcases assigned_step h with ⟨-, hsame⟩ | ⟨-, hassigned, hthreads, hnext⟩
  · refine ⟨hsame.numThreads.trans hs.numThreads, ?_, ?_⟩
    · rw [hlen, hsame.assigned, ← hlen, hs.assigned]
    · rw [hlen, hsame.assigned, ← hlen, hsame.next]
      exact hs.next
  · have hcount : t.conns.length = s.conns.length + 1 := by
      rw [hlen, hassigned, List.length_append, ← hlen]
      rfl
    refine ⟨hthreads.trans hs.numThreads, ?_, fun hn => ?_⟩
    · rw [hassigned, hcount, List.range_succ, List.map_append, hs.assigned]
      refine congrArg _ (congrArg (fun k => [k]) ?_)
      unfold getNextLoop loopOf
      rw [hs.numThreads]
      split_ifs with hn
      · rfl
      · rw [hs.next hn]
    · have hpos : s.numThreads ≠ 0 := hs.numThreads ▸ hn
      rw [hnext, hcount, getNextLoop, if_neg hpos]
      simp only [hs.numThreads, hs.next hn]
      exact next_mod hn _

/-- Of the numbers below `m`, those with remainder `k` are counted by `m / n`, and one more in front
of the remainder of `m`. -/
theorem count_loopOf {n : ℕ} (hn : n ≠ 0) (m : ℕ) {k : ℕ} (hk : k < n) :
    ((List.range m).map (loopOf n)).count (k + 1) = m / n + if k < m % n then 1 else 0 := by
  have hcount := Nat.count_modEq_card m (Nat.pos_of_ne_zero hn) k
  rw [Nat.mod_eq_of_lt hk] at hcount
  rw [← hcount]
  clear hcount
  induction m with
  | zero => rfl
  | succ m ih =>
    have hiff : loopOf n m = k + 1 ↔ m ≡ k [MOD n] := by
      rw [loopOf, if_neg hn, Nat.ModEq, Nat.mod_eq_of_lt hk]
      exact Nat.succ_inj
    rw [List.range_succ, List.map_append, List.count_append, ih, Nat.count_succ]
    by_cases h : m ≡ k [MOD n]
    · simp [h, hiff.2 h]
    · simp [h, mt hiff.1 h]

theorem count_loopOf_baseLoop (n m : ℕ) :
    ((List.range m).map (loopOf n)).count baseLoop = if n = 0 then m else 0 := by
  split_ifs with hn
  · have hconst : (List.range m).map (loopOf n) = List.replicate m baseLoop := by
      rw [List.eq_replicate_iff, List.length_map, List.length_range, List.forall_mem_map]
      exact ⟨rfl, fun c _ => if_pos hn⟩
    rw [hconst, List.count_replicate_self]
  · rw [List.count_eq_zero]
    intro hmem
    obtain ⟨c, -, hc⟩ := List.mem_map.1 hmem
    rw [loopOf, if_neg hn] at hc
    exact Nat.succ_ne_zero _ hc

/-- **The loops are balanced.**  In every run of a server with `n` I/O loops, connection `c` is
given to loop `c % n + 1`, and after `m` connections loop `k + 1` has `m / n` of them, and one more
if `k` is smaller than `m % n`.  The base loop has none, unless there is no other one. -/
theorem loops_balanced {listenAddr : InetAddress} {nameArg : Bytes} {n : ℕ} {ls : List Label}
    {s : TcpServer} (h : run step (new listenAddr nameArg n) ls = some s) :
    s.conns.length = ls.count .newConnection ∧
      (∀ c conn, s.conns[c]? = some conn → conn.loop = loopOf n c) ∧
      (∀ k < n, s.load (k + 1) =
        s.conns.length / n + if k < s.conns.length % n then 1 else 0) ∧
      s.load baseLoop = if n = 0 then s.conns.length else 0 := by
  have hall : Spread n s ∧ s.assigned.length = ls.count .newConnection := by
    refine run_induction (P := fun ms u => Spread n u ∧ u.assigned.length = ms.count .newConnection)
      ⟨⟨rfl, rfl, fun hn => (Nat.zero_mod n).symm⟩, rfl⟩ ?_ h
    rintro ms u l v ⟨hspread, hcount⟩ hstep
    refine ⟨spread_step hspread hstep, ?_⟩
    rw [List.count_append, ← hcount]
    rcases assigned_step hstep with ⟨hne, hsame⟩ | ⟨rfl, hassigned, -, -⟩
    · rw [hsame.assigned, List.count_singleton, if_neg (by simpa using hne), Nat.add_zero]
    · rw [hassigned, List.length_append]
      rfl
  obtain ⟨hspread, hcount⟩ := hall
  refine ⟨by simpa [assigned] using hcount, fun c conn hc => ?_, fun k hk => ?_, ?_⟩
  · have hloop : s.assigned[c]? = some conn.loop := by
      rw [assigned, List.getElem?_map, hc]
      rfl
    rw [hspread.assigned, List.getElem?_map] at hloop
    obtain ⟨i, hi, heq⟩ := Option.map_eq_some_iff.1 hloop
    rw [(List.getElem?_eq_some_iff.1 hi).2.symm, List.getElem_range] at heq
    exact heq.symm
  · rw [load, hspread.assigned]
    exact count_loopOf (Nat.ne_zero_of_lt hk) _ hk
  · rw [load, hspread.assigned]
    exact count_loopOf_baseLoop _ _

/-- Three connections on two loops. -/
def threeAccepts : List Label :=
  [.loop 0 .startLoop, .loop 0 .test, .poll 0 false [], .newConnection, .loop 1 (.wakeup 0),
    .newConnection, .loop 2 (.wakeup 0), .newConnection]

theorem loops_balanced_three :
    ∃ s, run step (new ⟨(127, 0, 0, 1), 8080⟩ [] 2) threeAccepts = some s ∧
      s.load 1 = 2 ∧ s.load 2 = 1 ∧ s.load baseLoop = 0 := by
  have hrun : (run step (new ⟨(127, 0, 0, 1), 8080⟩ [] 2) threeAccepts).isSome = true := by decide
  obtain ⟨s, hs⟩ := Option.isSome_iff_exists.1 hrun
  obtain ⟨hcount, -, hload, hbase⟩ := loops_balanced hs
  have hthree : s.conns.length = 3 := hcount
  refine ⟨s, hs, ?_, ?_, hbase⟩
  · rw [hload 0 (by decide), hthree]
    rfl
  · rw [hload 1 (by decide), hthree]
    rfl

end TcpServer

end TinyNetwork
