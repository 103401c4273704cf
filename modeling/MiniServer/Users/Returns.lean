import Mathlib.Algebra.GroupWithZero.Nat
import Mathlib.Algebra.BigOperators.Group.List.Basic
import MiniServer.LTS.Progress
import MiniServer.Users.Concurrent

/-!
# What is left to a call

A call of `route` holds a lease from its first step to its last but one, and waits for nothing while
it holds it (`AuthServer.exists_step_of_holds`).  When no lease is held, there is a handle for a
call that waits (`AuthServer.exists_available`).  Each step of a call leaves it less to do
(`AuthServer.rank_step`).
-/

namespace MiniServer

namespace DbProgram

variable {α : Type}

/-- A lease is held. -/
def holds : DbProgram α → Bool
  | .query _ _ | .storeResult _ | .release _ => true
  | .done _ | .acquire _ => false

/-- A bound on the steps that are left to a call of `route`, with its return. -/
def rank : DbProgram α → ℕ
  | .done _ => 1
  | .release _ => 2
  | .storeResult _ => 3
  | .query _ _ => 4
  | .acquire _ => 5

theorem Quiet.holds {p : DbProgram α} (h : Quiet p) : p.holds = true := by
  cases h <;> rfl

theorem Quiet.rank_lt {p : DbProgram α} (h : Quiet p) : p.rank < 4 := by
  cases h <;> simp [rank]

theorem rank_lt_of_holds {p : DbProgram α} (h : p.holds = true) : p.rank < 5 := by
  cases p <;> cases h <;> simp [rank]

theorem Serves.holds {sql : Sql} {fault : Option Fault} {f : Users → α × Users}
    {p : DbProgram α} (h : Serves sql fault f p) : p.holds = true := by
  obtain ⟨text, next, rfl, -⟩ := h.query
  rfl

end DbProgram

namespace AuthServer

open DbProgram

variable {sql : Sql} {poolSize : ℕ} {users₀ : Users} {s s' : AuthServer} {m : Ledger} {k : ℕ}

/-! ### One step of a call -/

/-- What the next step of a call does to its program and to the pool. -/
inductive CallCase (poolSize : ℕ) (s s' : AuthServer) (k : ℕ) :
    DbProgram RoutedResponse → DbProgram RoutedResponse → Prop
  | acquire (next : DbProgram RoutedResponse) : next.holds = true →
      s.pool.step poolSize (.lease (.acquire k)) = some s'.pool →
      CallCase poolSize s s' k (.acquire next) next
  /-- A step with MySQL. -/
  | talk (p p' : DbProgram RoutedResponse) : p.holds = true → (∀ next, p ≠ .release next) →
      p'.holds = true → p'.rank < p.rank → s'.pool = s.pool → CallCase poolSize s s' k p p'
  | release (response : RoutedResponse) :
      s.pool.step poolSize (.lease (.destroy k)) = some s'.pool →
      CallCase poolSize s s' k (.release (.done response)) (.done response)

theorem call_cases (hs : Linearized sql users₀ s m)
    (h : s.step sql poolSize (.step k) = some s') : ∃ op p p',
      s.calls[k]? = some (some ⟨op, p⟩) ∧ s'.calls = s.calls.set k (some ⟨op, p'⟩) ∧
        CallCase poolSize s s' k p p' := by
  have hcase := step_cases m h
  generalize m.write s (.step k) = m' at hcase
  cases hcase with
  | acquire _ op next pool hk hpool =>
    refine ⟨op, _, next, hk, rfl, .acquire next ?_ hpool⟩
    cases (hs.stage k op _ hk).2 with
    | waiting _ _ hserves => exact hserves.holds
    | leased _ _ _ _ hserves => obtain ⟨_, _, ⟨⟩, -⟩ := hserves.query
    | served _ _ _ hquiet => cases hquiet
  | query _ op text next db ok session hk hdb hquery =>
    have hnext : Quiet (next ok) := by
      cases (hs.stage k op _ hk).2 with
      | leased _ _ _ _ hserves =>
        obtain ⟨_, _, ⟨⟩, hquiet⟩ := hserves.query
        exact hquiet ok
      | served _ _ _ hquiet => cases hquiet
    exact ⟨op, _, next ok, hk, rfl, .talk _ _ rfl (by simp) hnext.holds hnext.rank_lt rfl⟩
  | storeResult _ op next db hk hdb =>
    refine ⟨op, _, _, hk, rfl, ?_⟩
    cases (hs.stage k op _ hk).2 with
    | leased _ _ _ _ hserves => obtain ⟨_, _, ⟨⟩, -⟩ := hserves.query
    | served _ _ _ hquiet =>
      cases hquiet
      exact .talk _ _ rfl (by simp) rfl (by simp [DbProgram.rank]) rfl
  | release _ op next pool hk hpool =>
    refine ⟨op, _, next, hk, rfl, ?_⟩
    cases (hs.stage k op _ hk).2 with
    | leased _ _ _ _ hserves => obtain ⟨_, _, ⟨⟩, -⟩ := hserves.query
    | served _ _ _ hquiet =>
      cases hquiet
      exact .release _ hpool

theorem CallCase.rank_lt {p p' : DbProgram RoutedResponse} (h : CallCase poolSize s s' k p p') :
    p'.rank < p.rank := by
  cases h with
  | acquire next hholds hpool => exact rank_lt_of_holds hholds
  | talk p p' _ _ _ hlt _ => exact hlt
  | release response hpool => exact Nat.lt_succ_self 1

theorem CallCase.phase_eq {p p' : DbProgram RoutedResponse} (h : CallCase poolSize s s' k p p') :
    s'.pool.phase = s.pool.phase := by
  have hlease : ∀ op {pool : DatabasePool}, op = .acquire k ∨ op = .destroy k →
      s.pool.step poolSize (.lease op) = some pool → pool.phase = s.pool.phase := by
    intro op pool hop hpool
    obtain ⟨-, hlease⟩ := Option.ite_none_right_eq_some.1 hpool
    rcases hop with rfl | rfl
    · cases DatabasePool.leaseStep_cases hlease with
      | acquire _ db rest hnew hqueue => rfl
    · exact (Callers.destroy_frame hlease).2.1
  cases h with
  | acquire next hholds hpool => exact hlease _ (.inl rfl) hpool
  | talk p p' _ _ _ _ hpool => rw [hpool]
  | release response hpool => exact hlease _ (.inr rfl) hpool

/-! ### The leases -/

/-- The leases are those of the calls that hold one. -/
def Leased (s : AuthServer) : Prop :=
  ∀ k ∈ s.pool.leases, (∃ db, s.pool.leases.lookup k = some (.live (some db))) ∧
    ∃ op p, s.calls[k]? = some (some ⟨op, p⟩) ∧ p.holds = true

/-- A step of call `k`, which leaves the leases of the others alone. -/
theorem Leased.move (hs : Leased s) {c : Option UserCall}
    (hcalls : s'.calls = s.calls.set k c)
    (hother : ∀ j, j ≠ k → s'.pool.leases.lookup j = s.pool.leases.lookup j)
    (hk : k ∈ s'.pool.leases → (∃ db, s'.pool.leases.lookup k = some (.live (some db))) ∧
      ∃ op p, s'.calls[k]? = some (some ⟨op, p⟩) ∧ p.holds = true) : Leased s' := by
  intro j hj
  by_cases hjk : j = k
  · subst hjk
    exact hk hj
  · have hold : j ∈ s.pool.leases := by
      rw [← Finmap.lookup_isSome, ← hother j hjk, Finmap.lookup_isSome]
      exact hj
    obtain ⟨⟨db, hdb⟩, op, p, hcall, hp⟩ := hs j hold
    refine ⟨⟨db, (hother j hjk).trans hdb⟩, op, p, ?_, hp⟩
    rw [hcalls, List.getElem?_set_ne (Ne.symm hjk)]
    exact hcall

theorem lookup_acquire {pool pool' : DatabasePool}
    (h : pool.step poolSize (.lease (.acquire k)) = some pool') :
    (∃ db, pool'.leases.lookup k = some (.live (some db))) ∧
      ∀ j, j ≠ k → pool'.leases.lookup j = pool.leases.lookup j := by
  obtain ⟨-, hlease⟩ := Option.ite_none_right_eq_some.1 h
  cases DatabasePool.leaseStep_cases hlease with
  | acquire _ db rest hnew hqueue =>
    exact ⟨⟨db, Finmap.lookup_insert _⟩, fun j hj => Finmap.lookup_insert_of_ne _ hj⟩

theorem Leased.call (hs : Leased s) {op : UserOp} {p p' : DbProgram RoutedResponse}
    (hk : s.calls[k]? = some (some ⟨op, p⟩)) (hcalls : s'.calls = s.calls.set k (some ⟨op, p'⟩))
    (h : CallCase poolSize s s' k p p') : Leased s' := by
  have hself : s'.calls[k]? = some (some ⟨op, p'⟩) := by
    rw [hcalls]
    exact List.getElem?_set_self (List.getElem?_eq_some_iff.1 hk).1
  cases h with
  | acquire _ hholds hpool =>
    obtain ⟨hdb, hother⟩ := lookup_acquire hpool
    exact hs.move hcalls hother fun _ => ⟨hdb, op, p', hself, hholds⟩
  | talk _ _ _ _ hholds _ hpool =>
    refine hs.move hcalls (fun j _ => by rw [hpool]) fun hmem => ?_
    rw [hpool] at hmem ⊢
    exact ⟨(hs k hmem).1, op, p', hself, hholds⟩
  | release response hpool =>
    obtain ⟨-, hlease⟩ := Option.ite_none_right_eq_some.1 hpool
    have hleases : s'.pool.leases = s.pool.leases.erase k := (Callers.destroy_frame hlease).1
    refine hs.move hcalls (fun j hj => ?_) fun hmem => ?_
    · rw [hleases, Finmap.lookup_erase_ne hj]
    · rw [hleases, Finmap.mem_erase] at hmem
      exact absurd rfl hmem.1

theorem Leased.step {l : Label} (hlinearized : Linearized sql users₀ s m) (hs : Leased s)
    (h : s.step sql poolSize l = some s') : Leased s' := by
  cases l with
  | pool op =>
    obtain ⟨pool, hpool, rfl⟩ := Option.map_eq_some_iff.1 h
    have hleases : pool.leases = s.pool.leases := Callers.poolStep_leases hpool
    intro k hk
    show (∃ db, pool.leases.lookup k = _) ∧ _
    rw [hleases]
    exact hs k (hleases ▸ hk)
  | call op =>
    obtain ⟨-, ⟨⟩⟩ := Option.ite_none_right_eq_some.1 h
    intro k hk
    obtain ⟨hdb, op', p, hcall, hp⟩ := hs k hk
    refine ⟨hdb, op', p, ?_, hp⟩
    rw [List.getElem?_append_left (List.getElem?_eq_some_iff.1 hcall).1]
    exact hcall
  | step k =>
    obtain ⟨op, p, p', hk, hcalls, hcase⟩ := call_cases hlinearized h
    exact hs.call hk hcalls hcase
  | returns k =>
    have hcase := step_cases m h
    generalize m.write s (.returns k) = m' at hcase
    cases hcase with
    | returns _ op response hk =>
      refine hs.move rfl (fun _ _ => rfl) fun hmem => ?_
      obtain ⟨-, op', p, hcall, hp⟩ := hs k hmem
      rw [hk] at hcall
      cases hcall
      cases hp

theorem leased_of_reachable (hsql : sql.Escapes) (h : (lts sql poolSize users₀).Reachable s) :
    Leased s := by
  refine LTS.ReachableIf.invariant (I := Leased) h
    (fun k hk => absurd hk Finmap.notMem_empty) fun s l s' hreach hs _ hstep => ?_
  obtain ⟨m, hlinearized⟩ := exists_linearized hsql hreach
  exact hs.step hlinearized hstep

/-! ### No deadlock -/

/-- A call with a lease can go on. -/
theorem exists_step_of_holds (sql : Sql) (poolSize : ℕ) (hs : Leased s)
    (hready : s.pool.phase = .ready) {op : UserOp} {p : DbProgram RoutedResponse}
    (hk : s.calls[k]? = some (some ⟨op, p⟩)) (hp : p.holds = true) (hmem : k ∈ s.pool.leases) :
    ∃ s', s.step sql poolSize (.step k) = some s' := by
  obtain ⟨⟨db, hdb⟩, -⟩ := hs k hmem
  have hheld : s.pool.held k = some db := DatabasePool.held_eq hdb
  cases p with
  | done _ => cases hp
  | acquire _ => cases hp
  | query text next => simp [step, hk, callStep, talk, hheld]
  | storeResult next => simp [step, hk, callStep, talk, hheld]
  | release next =>
    simp [step, hk, callStep, poolCall, DatabasePool.step, hready, DatabasePool.leaseStep, hdb]

/-- A call that waits can go on when there is a handle. -/
theorem exists_step_of_acquire (sql : Sql) (poolSize : ℕ) (hready : s.pool.phase = .ready)
    {op : UserOp} {next : DbProgram RoutedResponse}
    (hk : s.calls[k]? = some (some ⟨op, .acquire next⟩)) (hmem : k ∉ s.pool.leases)
    (hqueue : s.pool.available ≠ []) : ∃ s', s.step sql poolSize (.step k) = some s' := by
  obtain ⟨db, rest, hqueue⟩ := List.exists_cons_of_ne_nil hqueue
  refine Option.isSome_iff_exists.1 ?_
  simp [step, hk, callStep, poolCall, DatabasePool.step, hready, DatabasePool.leaseStep, hmem,
    DatabasePool.acquire, hqueue]

/-- When no lease is held, there is a handle for a call that waits. -/
theorem exists_available (hpos : 1 ≤ poolSize) (h : (lts sql poolSize users₀).Reachable s)
    (hready : s.pool.phase = .ready) (hnone : ∀ k, k ∉ s.pool.leases) :
    s.pool.available ≠ [] := by
  obtain ⟨m, hconserved⟩ := exists_conserved h
  obtain ⟨o, howned⟩ := hconserved.owned
  have hsized := hconserved.sized
  rw [DatabasePool.Sized, hready] at hsized
  obtain ⟨db, hdb⟩ := List.exists_mem_of_length_pos (l := s.pool.all) (by omega)
  have hqueue : db ∈ s.pool.available := by
    rcases howned.unique hready hdb with ⟨hcount, -⟩ | ⟨-, l, hl, -⟩
    · exact List.count_pos_iff.1 (by omega)
    · rw [DatabasePool.held_eq_none (hnone l)] at hl
      cases hl
  exact List.ne_nil_of_mem hqueue

/-! ### What is left -/

/-- The steps that are left to the calls. -/
def rank (s : AuthServer) : ℕ := (s.calls.map fun c => c.elim 0 (·.program.rank)).sum

theorem rank_lt {c : UserCall} {c' : Option UserCall} (hk : s.calls[k]? = some (some c))
    (hcalls : s'.calls = s.calls.set k c') (hlt : c'.elim 0 (·.program.rank) < c.program.rank) :
    s'.rank < s.rank := by
  obtain ⟨hlen, hget⟩ := List.getElem?_eq_some_iff.1 hk
  obtain ⟨l₁, l₂, hold, hnew⟩ :
      ∃ l₁ l₂, s.calls = l₁ ++ some c :: l₂ ∧ s'.calls = l₁ ++ c' :: l₂ := by
    refine ⟨s.calls.take k, s.calls.drop (k + 1), ?_, ?_⟩
    · rw [← hget, List.getElem_cons_drop, List.take_append_drop]
    · rw [hcalls, List.set_eq_take_append_cons_drop, if_pos hlen]
  simp only [rank, hold, hnew, List.map_append, List.map_cons, List.sum_append, List.sum_cons,
    Option.elim_some]
  omega

/-- Each step of a call is one step less. -/
theorem rank_step (hs : Linearized sql users₀ s m)
    (hstep : s.step sql poolSize (.step k) = some s') : s'.rank < s.rank := by
  obtain ⟨op, p, p', hk, hcalls, hcase⟩ := call_cases hs hstep
  exact rank_lt hk hcalls hcase.rank_lt

theorem returns_cases (h : s.step sql poolSize (.returns k) = some s') :
    ∃ op response, s.calls[k]? = some (some ⟨op, .done response⟩) ∧ s' = s.setCall k none := by
  have hcase := step_cases {} h
  generalize Ledger.write {} s (.returns k) = m at hcase
  cases hcase with
  | returns _ op response hk => exact ⟨op, response, hk, rfl⟩

/-- So is its return. -/
theorem rank_returns (h : s.step sql poolSize (.returns k) = some s') : s'.rank < s.rank := by
  obtain ⟨op, response, hk, rfl⟩ := returns_cases h
  exact rank_lt hk rfl Nat.one_pos

end AuthServer

end MiniServer
