import MiniServer.Database.Callers
import MiniServer.LTS.Linearizable
import MiniServer.Users.Program

/-!
# Requests of many handlers

`AuthServer` is the pool, MySQL and the calls of `router_.route` that are under way, any number of
them at once.  Each statement is one step of MySQL, and the result of a `SELECT` stays on its
connection until the handler fetches it: two handlers with one connection would read each other's
results.

`AuthServer.linearizable` : the responses are those that the requests would get one after the other,
in an order that agrees with the order of calls and returns.  A request takes effect when MySQL
executes its statement.

`acquire` is one step here, of a call that finds a handle; how calls wait for it is in
`MiniServer.Users.Waits`.
-/

namespace MiniServer

/-- A call of `route`, with what it has still to do. -/
structure UserCall where
  op : UserOp
  program : DbProgram RoutedResponse

/-- The pool, MySQL and the handlers. -/
structure AuthServer where
  pool : DatabasePool := {}
  users : Users
  /-- The number of rows of the last `SELECT` on each connection. -/
  results : Handle → Option ℕ := fun _ => none
  /-- The calls in the order they were made, `none` for those that have returned.  The lease of call
  `k` is the lease `k`. -/
  calls : List (Option UserCall) := []

namespace AuthServer

/-- The steps. -/
inductive Label where
  /-- `init` and the destructor of the pool. -/
  | pool (op : DatabasePool.PoolOp)
  /-- `route` is called; what will go wrong in this call is chosen here. -/
  | call (op : UserOp)
  /-- The next step of a call. -/
  | step (k : ℕ)
  /-- `route` returns. -/
  | returns (k : ℕ)

/-- A call in a new state. -/
def setCall (s : AuthServer) (k : ℕ) (c : Option UserCall) : AuthServer :=
  { s with calls := s.calls.set k c }

/-- A step with MySQL on the connection of the call. -/
def talk {α : Type} (s : AuthServer) (k : ℕ) (op : UserOp) (x : StateM MySqlSession α)
    (next : α → DbProgram RoutedResponse) : Option AuthServer :=
  (s.pool.held k).map fun db =>
    let (a, session) := Id.run (x.run ⟨s.users, op.2, s.results db⟩)
    { s with
      users := session.users
      results := Function.update s.results db session.result }.setCall k (some ⟨op, next a⟩)

/-- A step with the pool. -/
def poolCall (poolSize : ℕ) (s : AuthServer) (k : ℕ) (leaseOp : DatabasePool.LeaseOp) (op : UserOp)
    (next : DbProgram RoutedResponse) : Option AuthServer :=
  (s.pool.step poolSize (.lease leaseOp)).map fun pool =>
    { s with pool }.setCall k (some ⟨op, next⟩)

/-- The next step of a call. -/
def callStep (sql : Sql) (poolSize : ℕ) (s : AuthServer) (k : ℕ) : UserCall → Option AuthServer
  | ⟨_, .done _⟩ => none
  | ⟨op, .acquire next⟩ => s.poolCall poolSize k (.acquire k) op next
  | ⟨op, .query text next⟩ => s.talk k op (sql.query text) next
  | ⟨op, .storeResult next⟩ => s.talk k op Sql.storeResult next
  | ⟨op, .release next⟩ => s.poolCall poolSize k (.destroy k) op next

/-- A step; requests are routed when `init` has returned `true`. -/
def step (sql : Sql) (poolSize : ℕ) (s : AuthServer) : Label → Option AuthServer
  | .pool op => (s.pool.step poolSize (.pool op)).map fun pool => { s with pool }
  | .call op =>
    if s.pool.phase = .ready then some { s with calls := s.calls ++ [some ⟨op, sql.route op.1⟩] }
    else none
  | .step k =>
    match s.calls[k]? with
    | some (some c) => s.callStep sql poolSize k c
    | _ => none
  | .returns k =>
    match s.calls[k]? with
    | some (some ⟨_, .done _⟩) => some (s.setCall k none)
    | _ => none

/-- The pool from its constructor on, with the table that MySQL holds. -/
def lts (sql : Sql) (poolSize : ℕ) (users : Users) : LTS AuthServer Label where
  init := { users }
  step := step sql poolSize

/-- What is seen of the calls, and the order in which they take effect. -/
structure Ledger where
  history : List (CallEvent ℕ UserOp RoutedResponse) := []
  order : List (ℕ × UserOp) := []

/-- The ledger after a step.  A request that does not reach the service takes effect at once. -/
def Ledger.write (m : Ledger) (s : AuthServer) : Label → Ledger
  | .pool _ => m
  | .call op =>
    { history := m.history ++ [.called s.calls.length op]
      order := if op.1.IsAuth then m.order else m.order ++ [(s.calls.length, op)] }
  | .step k =>
    match s.calls[k]? with
    | some (some ⟨op, .query _ _⟩) => { m with order := m.order ++ [(k, op)] }
    | _ => m
  | .returns k =>
    match s.calls[k]? with
    | some (some ⟨_, .done response⟩) =>
      { m with history := m.history ++ [.returned k response] }
    | _ => m

/-! ### One step -/

/-- What a step does to the server and to the ledger. -/
inductive StepCase (sql : Sql) (poolSize : ℕ) (s : AuthServer) (m : Ledger) :
    Label → AuthServer → Ledger → Prop
  | pool (op : DatabasePool.PoolOp) (pool : DatabasePool) :
      s.pool.step poolSize (.pool op) = some pool →
      StepCase sql poolSize s m (.pool op) { s with pool } m
  | call (op : UserOp) : StepCase sql poolSize s m (.call op)
      { s with calls := s.calls ++ [some ⟨op, sql.route op.1⟩] }
      { history := m.history ++ [.called s.calls.length op]
        order := if op.1.IsAuth then m.order else m.order ++ [(s.calls.length, op)] }
  | acquire (k : ℕ) (op : UserOp) (next : DbProgram RoutedResponse) (pool : DatabasePool) :
      s.calls[k]? = some (some ⟨op, .acquire next⟩) →
      s.pool.step poolSize (.lease (.acquire k)) = some pool →
      StepCase sql poolSize s m (.step k) ({ s with pool }.setCall k (some ⟨op, next⟩)) m
  | query (k : ℕ) (op : UserOp) (text : Bytes) (next : Bool → DbProgram RoutedResponse)
      (db : Handle) (ok : Bool) (session : MySqlSession) :
      s.calls[k]? = some (some ⟨op, .query text next⟩) → s.pool.held k = some db →
      Id.run ((sql.query text).run ⟨s.users, op.2, s.results db⟩) = (ok, session) →
      StepCase sql poolSize s m (.step k)
        ({ s with
          users := session.users
          results := Function.update s.results db session.result }.setCall k (some ⟨op, next ok⟩))
        { m with order := m.order ++ [(k, op)] }
  | storeResult (k : ℕ) (op : UserOp) (next : Option ℕ → DbProgram RoutedResponse) (db : Handle) :
      s.calls[k]? = some (some ⟨op, .storeResult next⟩) → s.pool.held k = some db →
      StepCase sql poolSize s m (.step k) (s.setCall k (some ⟨op, next
        (if op.2 = some .result then none else s.results db)⟩)) m
  | release (k : ℕ) (op : UserOp) (next : DbProgram RoutedResponse) (pool : DatabasePool) :
      s.calls[k]? = some (some ⟨op, .release next⟩) →
      s.pool.step poolSize (.lease (.destroy k)) = some pool →
      StepCase sql poolSize s m (.step k) ({ s with pool }.setCall k (some ⟨op, next⟩)) m
  | returns (k : ℕ) (op : UserOp) (response : RoutedResponse) :
      s.calls[k]? = some (some ⟨op, .done response⟩) →
      StepCase sql poolSize s m (.returns k) (s.setCall k none)
        { m with history := m.history ++ [.returned k response] }

theorem step_cases {sql : Sql} {poolSize : ℕ} {s s' : AuthServer} {l : Label} (m : Ledger)
    (h : s.step sql poolSize l = some s') : StepCase sql poolSize s m l s' (m.write s l) := by
  cases l with
  | pool op =>
    obtain ⟨pool, hpool, rfl⟩ := Option.map_eq_some_iff.1 h
    exact .pool op pool hpool
  | call op =>
    obtain ⟨-, ⟨⟩⟩ := Option.ite_none_right_eq_some.1 h
    exact .call op
  | step k =>
    simp only [step] at h
    split at h
    · rename_i c hk
      obtain ⟨op, program⟩ := c
      simp only [Ledger.write, hk]
      cases program with
      | done response => cases h
      | acquire next =>
        obtain ⟨pool, hpool, rfl⟩ := Option.map_eq_some_iff.1 h
        exact .acquire k op next pool hk hpool
      | query text next =>
        obtain ⟨db, hdb, rfl⟩ := Option.map_eq_some_iff.1 h
        exact .query k op text next db _ _ hk hdb rfl
      | storeResult next =>
        obtain ⟨db, hdb, rfl⟩ := Option.map_eq_some_iff.1 h
        -- the result stays on the connection
        show StepCase sql poolSize s m (.step k)
          ({ s with results := Function.update s.results db (s.results db) }.setCall k _) m
        rw [Function.update_eq_self]
        exact .storeResult k op next db hk hdb
      | release next =>
        obtain ⟨pool, hpool, rfl⟩ := Option.map_eq_some_iff.1 h
        exact .release k op next pool hk hpool
    · cases h
  | returns k =>
    simp only [step] at h
    split at h
    · rename_i op response hk
      cases h
      simp only [Ledger.write, hk]
      exact .returns k op response hk
    · cases h

/-! ### The leases of the calls -/

theorem held_acquire {poolSize : ℕ} {pool pool' : DatabasePool} {k : ℕ}
    (h : pool.step poolSize (.lease (.acquire k)) = some pool') :
    (∃ db, pool'.held k = some db) ∧ ∀ j, j ≠ k → pool'.held j = pool.held j := by
  obtain ⟨-, h⟩ := Option.ite_none_right_eq_some.1 h
  cases DatabasePool.leaseStep_cases h with
  | acquire _ db rest hk hqueue =>
    simp only [DatabasePool.held_setLease, if_true]
    exact ⟨⟨db, rfl⟩, fun j hj => if_neg hj⟩

theorem held_destroy {poolSize : ℕ} {pool pool' : DatabasePool} {k : ℕ}
    (h : pool.step poolSize (.lease (.destroy k)) = some pool') {j : ℕ} (hj : j ≠ k) :
    pool'.held j = pool.held j := by
  obtain ⟨-, h⟩ := Option.ite_none_right_eq_some.1 h
  cases DatabasePool.leaseStep_cases h with
  | destroyLive _ db hk => exact (DatabasePool.held_erase (pool.release db) k j).trans (if_neg hj)
  | destroyEmpty _ hk => exact (DatabasePool.held_erase pool k j).trans (if_neg hj)

theorem held_pool {poolSize : ℕ} {pool pool' : DatabasePool} {op : DatabasePool.PoolOp}
    (h : pool.step poolSize (.pool op) = some pool') (j : ℕ) : pool'.held j = pool.held j := by
  unfold DatabasePool.held
  rw [Callers.poolStep_leases h]

variable {sql : Sql} {poolSize : ℕ} {users₀ : Users}

/-- The pool runs as it does alone. -/
theorem pool_reachable {s : AuthServer} (h : (lts sql poolSize users₀).Reachable s) :
    (DatabasePool.lts poolSize).Reachable s.pool := by
  refine LTS.ReachableIf.invariant (I := fun s : AuthServer =>
    (DatabasePool.lts poolSize).Reachable s.pool) h .init ?_
  rintro s l s' - hs - hstep
  have hcase := step_cases {} hstep
  generalize Ledger.write {} s l = m at hcase
  cases hcase with
  | pool op pool hpool => exact .step (l := .pool op) hs trivial hpool
  | acquire k op next pool hk hpool => exact .step (l := .lease (.acquire k)) hs trivial hpool
  | release k op next pool hk hpool => exact .step (l := .lease (.destroy k)) hs trivial hpool
  | _ => exact hs

theorem exists_conserved {s : AuthServer} (h : (lts sql poolSize users₀).Reachable s) :
    ∃ m, DatabasePool.Conserved poolSize s.pool m := by
  obtain ⟨m, hm⟩ : ∃ m, ((DatabasePool.lts poolSize).record {} DatabasePool.Ledger.write).Reachable
      (s.pool, m) := LTS.exists_ledger (pool_reachable h)
  exact ⟨m, DatabasePool.conserved_of_reachable hm⟩

/-- No two calls talk on one connection. -/
theorem held_unique {s : AuthServer} (h : (lts sql poolSize users₀).Reachable s) {j k : ℕ}
    {db : Handle} (hj : s.pool.held j = some db) (hk : s.pool.held k = some db) : j = k := by
  obtain ⟨m, hconserved⟩ := exists_conserved h
  obtain ⟨o, howned⟩ := hconserved.owned
  have howner := (howned.lease j db).1 hj
  rw [(howned.lease k db).1 hk] at howner
  cases howner
  rfl

/-! ### Every call -/

open SeqObject DbProgram

theorem fault_query (sql : Sql) (text : Bytes) (session : MySqlSession) :
    (Id.run ((sql.query text).run session)).2.fault = session.fault := by
  have hexecute : ∀ statement, (session.execute statement).2.fault = session.fault := by
    intro statement
    cases statement with
    | insert username password =>
      simp only [MySqlSession.execute]
      cases session.users.insert username password <;> rfl
    | select username password => rfl
  show (session.answer (sql.meaning text)).2.fault = _
  unfold MySqlSession.answer
  cases sql.meaning text with
  | none => rfl
  | some statement =>
    simp only
    split
    · rename_i executed _
      cases executed with
      | false => rfl
      | true => exact hexecute statement
    · exact hexecute statement

/-- How far a call is. -/
inductive Stage (sql : Sql) (users₀ : Users) (s : AuthServer) (m : Ledger) (k : ℕ) (op : UserOp) :
    DbProgram RoutedResponse → Prop
  /-- It waits for a lease. -/
  | waiting (p : DbProgram RoutedResponse) : k ∉ m.order.map Prod.fst →
      Serves sql op.2 (fun users => sql.respond users op) p → Stage sql users₀ s m k op (.acquire p)
  /-- It is about to send its statement. -/
  | leased (p : DbProgram RoutedResponse) (db : Handle) : s.pool.held k = some db →
      k ∉ m.order.map Prod.fst → Serves sql op.2 (fun users => sql.respond users op) p →
      Stage sql users₀ s m k op p
  /-- It took effect, and what its connection holds leads to its answer. -/
  | served (p : DbProgram RoutedResponse) (db : Handle) : s.pool.held k = some db → Quiet p →
      (∀ users, (k, (p.run sql ⟨users, op.2, s.results db⟩).1) ∈
        answers sql.respond users₀ m.order) → Stage sql users₀ s m k op p
  | done (response : RoutedResponse) : (k, response) ∈ answers sql.respond users₀ m.order →
      Stage sql users₀ s m k op (.done response)

theorem mem_answers_append {order tail : List (ℕ × UserOp)} {x : ℕ × RoutedResponse}
    (h : x ∈ answers sql.respond users₀ order) :
    x ∈ answers sql.respond users₀ (order ++ tail) := by
  rw [answers_append]
  exact List.mem_append_left _ h

/-- A step of other calls. -/
theorem Stage.frame {s s' : AuthServer} {m m' : Ledger} {k : ℕ} {op : UserOp}
    {p : DbProgram RoutedResponse} (h : Stage sql users₀ s m k op p)
    (hheld : s'.pool.held k = s.pool.held k)
    (hresults : ∀ db, s.pool.held k = some db → s'.results db = s.results db)
    (tail : List (ℕ × UserOp)) (horder : m'.order = m.order ++ tail)
    (htail : k ∉ tail.map Prod.fst) : Stage sql users₀ s' m' k op p := by
  have hnew : k ∉ m.order.map Prod.fst → k ∉ m'.order.map Prod.fst := by
    intro hk
    rw [horder, List.map_append, List.mem_append]
    exact not_or.2 ⟨hk, htail⟩
  cases h with
  | waiting p hk hserves => exact .waiting p (hnew hk) hserves
  | leased _ db hdb hk hserves => exact .leased _ db (hheld.trans hdb) (hnew hk) hserves
  | served _ db hdb hquiet hanswer =>
    refine .served _ db (hheld.trans hdb) hquiet fun users => ?_
    rw [hresults db hdb, horder]
    exact mem_answers_append (hanswer users)
  | done response hanswer =>
    refine .done response ?_
    rw [horder]
    exact mem_answers_append hanswer

/-- The invariant of the server and its ledger. -/
structure Linearized (sql : Sql) (users₀ : Users) (s : AuthServer) (m : Ledger) : Prop where
  linearizes : Linearizes sql.respond users₀ m.history m.order
  table : s.users = state sql.respond users₀ m.order
  called : ∀ k op, .called k op ∈ m.history → k < s.calls.length
  stage : ∀ k op p, s.calls[k]? = some (some ⟨op, p⟩) →
    .called k op ∈ m.history ∧ Stage sql users₀ s m k op p

theorem Linearized.init : Linearized sql users₀ { users := users₀ } {} where
  linearizes := .nil
  table := rfl
  called _ _ h := by cases h
  stage _ _ _ h := by cases h

/-- A step of one call. -/
theorem Linearized.move {s s' : AuthServer} {m m' : Ledger} (hs : Linearized sql users₀ s m)
    {k : ℕ} {op : UserOp} {p : DbProgram RoutedResponse}
    (hk : s.calls[k]? = some (some ⟨op, p⟩)) {c : Option UserCall}
    (hcalls : s'.calls = s.calls.set k c)
    (hlinearizes : Linearizes sql.respond users₀ m'.history m'.order)
    (htable : s'.users = state sql.respond users₀ m'.order)
    (hcalled : ∀ j op, .called j op ∈ m'.history ↔ .called j op ∈ m.history)
    (hstage : ∀ op' p', c = some ⟨op', p'⟩ → op' = op ∧ Stage sql users₀ s' m' k op p')
    (hother : ∀ j op p, j ≠ k → Stage sql users₀ s m j op p → Stage sql users₀ s' m' j op p) :
    Linearized sql users₀ s' m' where
  linearizes := hlinearizes
  table := htable
  called j op hj := by
    rw [hcalls, List.length_set]
    exact hs.called j op ((hcalled j op).1 hj)
  stage j op' p' hj := by
    rw [hcalls] at hj
    rw [hcalled]
    by_cases hjk : j = k
    · subst hjk
      rw [List.getElem?_set_self (List.getElem?_eq_some_iff.1 hk).1, Option.some.injEq] at hj
      obtain ⟨rfl, hnew⟩ := hstage op' p' hj
      exact ⟨(hs.stage j op' p hk).1, hnew⟩
    · rw [List.getElem?_set_ne (Ne.symm hjk)] at hj
      obtain ⟨hmem, hold⟩ := hs.stage j op' p' hj
      exact ⟨hmem, hother j op' p' hjk hold⟩

/-- The number of a new call has not been used. -/
theorem Linearized.fresh {s : AuthServer} {m : Ledger} (hs : Linearized sql users₀ s m)
    (op : UserOp) : .called s.calls.length op ∉ m.history :=
  fun h => Nat.lt_irrefl _ (hs.called _ op h)

theorem Linearized.mem_order {s : AuthServer} {m : Ledger} (hs : Linearized sql users₀ s m) {k : ℕ}
    (hk : k ∈ m.order.map Prod.fst) : k < s.calls.length := by
  obtain ⟨⟨k, op⟩, hmem, rfl⟩ := List.mem_map.1 hk
  exact hs.called k op (hs.linearizes.called k op hmem)

/-- A new call. -/
theorem Linearized.call {s : AuthServer} {m : Ledger} (hsql : sql.Escapes)
    (hs : Linearized sql users₀ s m) (op : UserOp) : Linearized sql users₀
      { s with calls := s.calls ++ [some ⟨op, sql.route op.1⟩] }
      { history := m.history ++ [.called s.calls.length op]
        order := if op.1.IsAuth then m.order else m.order ++ [(s.calls.length, op)] } := by
  have hnew : s.calls.length ∉ m.order.map Prod.fst := fun h => Nat.lt_irrefl _ (hs.mem_order h)
  have hlinearizes : Linearizes sql.respond users₀ (m.history ++ [.called s.calls.length op])
      m.order := hs.linearizes.call hs.fresh
  have hmem : .called s.calls.length op ∈ m.history ++ [.called s.calls.length op] :=
    List.mem_append_right _ List.mem_cons_self
  have hcalls : ∀ {k op' p}, (s.calls ++ [some ⟨op, sql.route op.1⟩])[k]? = some (some ⟨op', p⟩) →
      s.calls[k]? = some (some ⟨op', p⟩) ∨ k = s.calls.length ∧ op' = op ∧ p = sql.route op.1 := by
    intro k op' p hk
    rw [List.getElem?_append] at hk
    split_ifs at hk with hlt
    · exact .inl hk
    · obtain ⟨hpos, hk⟩ := List.getElem?_eq_some_iff.1 hk
      rw [List.length_singleton] at hpos
      simp only [List.getElem_singleton, Option.some.injEq, UserCall.mk.injEq] at hk
      exact .inr ⟨by omega, hk.1.symm, hk.2.symm⟩
  constructor
  case linearizes =>
    split_ifs with hauth
    · exact hlinearizes
    · exact hlinearizes.point hmem hnew
  case table =>
    split_ifs with hauth
    · exact hs.table
    · rw [state_append, ← hs.table]
      exact (congrArg Prod.snd (respond_of_not_isAuth sql s.users hauth)).symm
  case called =>
    intro k op' hk
    rw [List.length_append, List.length_singleton]
    rcases List.mem_append.1 hk with hk | hk
    · exact Nat.lt_succ_of_lt (hs.called k op' hk)
    · cases List.mem_singleton.1 hk
      exact Nat.lt_succ_self _
  case stage =>
    intro k op' p hk
    rcases hcalls hk with hk | ⟨rfl, rfl, rfl⟩
    · -- a call from before
      obtain ⟨hcalled, hstage⟩ := hs.stage k op' p hk
      refine ⟨List.mem_append_left _ hcalled, ?_⟩
      have hlt : k < s.calls.length := (List.getElem?_eq_some_iff.1 hk).1
      split_ifs with hauth
      · exact hstage.frame rfl (fun _ _ => rfl) [] (List.append_nil _).symm List.not_mem_nil
      · exact hstage.frame rfl (fun _ _ => rfl) [(s.calls.length, op)] rfl
          (by simpa using Nat.ne_of_lt hlt)
    · refine ⟨hmem, ?_⟩
      split_ifs with hauth
      · obtain ⟨p, hroute, hserves⟩ := exists_route_of_isAuth hsql hauth
        rw [hroute]
        exact .waiting p hnew hserves
      · rw [route_of_not_isAuth sql hauth]
        refine .done _ ?_
        have hrespond := congrArg Prod.fst
          (respond_of_not_isAuth sql (state sql.respond users₀ m.order) hauth)
        rw [← show _ = RequestRouter.responseTo op'.1 true from hrespond]
        exact mem_answers

theorem Linearized.step {s s' : AuthServer} {m : Ledger} {l : Label} (hsql : sql.Escapes)
    (hreach : (lts sql poolSize users₀).Reachable s) (hs : Linearized sql users₀ s m)
    (h : s.step sql poolSize l = some s') : Linearized sql users₀ s' (m.write s l) := by
  have hcase := step_cases m h
  generalize m.write s l = m' at hcase
  cases hcase with
  | pool op pool hpool =>
    refine ⟨hs.linearizes, hs.table, hs.called, fun k op p hk => ?_⟩
    obtain ⟨hmem, hstage⟩ := hs.stage k op p hk
    exact ⟨hmem, hstage.frame (held_pool hpool k) (fun _ _ => rfl) [] (List.append_nil _).symm
      List.not_mem_nil⟩
  | call op => exact hs.call hsql op
  | acquire k op next pool hk hpool =>
    obtain ⟨⟨db, hdb⟩, hheld⟩ := held_acquire hpool
    refine hs.move hk rfl hs.linearizes hs.table (fun _ _ => Iff.rfl) ?_ fun j op p hj hstage =>
      hstage.frame (hheld j hj) (fun _ _ => rfl) [] (List.append_nil _).symm List.not_mem_nil
    rintro _ _ ⟨⟩
    refine ⟨rfl, ?_⟩
    cases (hs.stage k op _ hk).2 with
    | waiting _ hnew hserves => exact .leased next db hdb hnew hserves
    | leased _ _ _ _ hserves => obtain ⟨_, _, ⟨⟩, -⟩ := hserves.query
    | served _ _ _ hquiet => cases hquiet
  | query k op text next db ok session hk hdb hquery =>
    obtain ⟨hmem, hstage⟩ := hs.stage k op _ hk
    cases hstage with
    | served _ _ _ hquiet => cases hquiet
    | leased _ db' hdb' hnew hserves =>
      obtain ⟨_, _, ⟨⟩, hquiet⟩ := hserves.query
      have hrun := hserves.run s.users (s.results db)
      -- the statement is executed on the table that the order leads to
      have hsession : (DbProgram.run sql (.query text next) ⟨s.users, op.2, s.results db⟩) =
          (next ok).run sql session := by rw [DbProgram.run, hquery]
      rw [hsession, (hquiet ok).run_snd] at hrun
      obtain ⟨hanswer, hafter⟩ := Prod.mk.inj hrun
      have hfault : session.fault = op.2 := by
        have hsame := fault_query sql text ⟨s.users, op.2, s.results db⟩
        rwa [hquery] at hsame
      refine hs.move hk rfl (hs.linearizes.point hmem hnew) ?_ (fun _ _ => Iff.rfl) ?_ ?_
      · rw [state_append, ← hs.table]
        exact hafter
      · rintro _ _ ⟨⟩
        refine ⟨rfl, .served _ db hdb (hquiet ok) fun users => ?_⟩
        show (k, ((next ok).run sql
          ⟨users, op.2, Function.update s.results db session.result db⟩).1) ∈ _
        rw [Function.update_self, (hquiet ok).run_users users session.users, ← hfault]
        show (k, ((next ok).run sql session).1) ∈ _
        rw [hanswer, hs.table]
        exact mem_answers
      · intro j op' p hj hstage
        refine hstage.frame rfl (fun db' hdb' => Function.update_of_ne ?_ _ _) [(k, op)] rfl
          (by simpa using hj)
        rintro rfl
        exact hj (held_unique hreach hdb' hdb)
  | storeResult k op next db hk hdb =>
    refine hs.move hk rfl hs.linearizes hs.table (fun _ _ => Iff.rfl) ?_ fun j op p hj hstage =>
      hstage.frame rfl (fun _ _ => rfl) [] (List.append_nil _).symm List.not_mem_nil
    rintro _ _ ⟨⟩
    refine ⟨rfl, ?_⟩
    cases (hs.stage k op _ hk).2 with
    | leased _ _ _ _ hserves => obtain ⟨_, _, ⟨⟩, -⟩ := hserves.query
    | served _ db' hdb' hquiet hanswer =>
      rw [hdb] at hdb'
      cases hdb'
      cases hquiet with
      | storeResult answer => exact .served _ db hdb (.release _) hanswer
  | release k op next pool hk hpool =>
    refine hs.move hk rfl hs.linearizes hs.table (fun _ _ => Iff.rfl) ?_ fun j op p hj hstage =>
      hstage.frame (held_destroy hpool hj) (fun _ _ => rfl) [] (List.append_nil _).symm
        List.not_mem_nil
    rintro _ _ ⟨⟩
    refine ⟨rfl, ?_⟩
    cases (hs.stage k op _ hk).2 with
    | leased _ _ _ _ hserves => obtain ⟨_, _, ⟨⟩, -⟩ := hserves.query
    | served _ _ _ hquiet hanswer =>
      cases hquiet with
      | release response => exact .done response (hanswer users₀)
  | returns k op response hk =>
    cases (hs.stage k op _ hk).2 with
    | leased _ _ _ _ hserves => obtain ⟨_, _, ⟨⟩, -⟩ := hserves.query
    | served _ _ _ hquiet => cases hquiet
    | done _ hanswer =>
      refine hs.move hk rfl (hs.linearizes.returns hanswer) hs.table ?_ nofun
        fun j op p hj hstage =>
          hstage.frame rfl (fun _ _ => rfl) [] (List.append_nil _).symm List.not_mem_nil
      intro j op'
      rw [List.mem_append, List.mem_singleton]
      exact or_iff_left nofun

theorem linearized_of_reachable (hsql : sql.Escapes) {s : AuthServer} {m : Ledger}
    (h : ((lts sql poolSize users₀).record {} Ledger.write).Reachable (s, m)) :
    Linearized sql users₀ s m :=
  LTS.record_invariant (I := Linearized sql users₀) h .init
    fun _ _ _ _ hreach hs hstep => hs.step hsql hreach hstep

theorem exists_linearized (hsql : sql.Escapes) {s : AuthServer}
    (h : (lts sql poolSize users₀).Reachable s) : ∃ m, Linearized sql users₀ s m := by
  obtain ⟨m, hm⟩ : ∃ m, ((lts sql poolSize users₀).record {} Ledger.write).Reachable (s, m) :=
    LTS.exists_ledger h
  exact ⟨m, linearized_of_reachable hsql hm⟩

/-- **The user service is linearizable.**  However the handlers, the pool and MySQL interleave, the
responses are those that the requests would get one after the other, in an order in which a request
that was answered before another one was received comes first; and the table is the one this order
leads to. -/
theorem linearizable (hsql : sql.Escapes) {s : AuthServer} {m : Ledger}
    (h : ((lts sql poolSize users₀).record {} Ledger.write).Reachable (s, m)) :
    ∃ order, Linearizes sql.respond users₀ m.history order ∧
      s.users = state sql.respond users₀ order :=
  have hs := linearized_of_reachable hsql h
  ⟨m.order, hs.linearizes, hs.table⟩

/-- The pool connects two handles. -/
def startRun : List Label :=
  [.pool .init, .pool (.connect (.connected 1)), .pool (.connect (.connected 2)),
    .pool .schemaLease, .pool (.schema true)]

/-- Two clients register one name at a time; the second is first with its statement. -/
def raceRun : List Label :=
  startRun ++ [.call (registerRequest, none), .call (registerRequest, none), .step 0, .step 1,
    .step 1, .step 0, .step 0, .returns 0, .step 1, .returns 1]

/-- The answers in a history. -/
def Ledger.statusCodes (m : Ledger) : List (ℕ × ℤ) :=
  m.history.filterMap fun e => match e with
    | .called _ _ => none
    | .returned k response => some (k, response.statusCode)

theorem linearizable_race : ∃ s m,
    ((lts Dialect.sql 2 .empty).record {} Ledger.write).Reachable (s, m) ∧
      m.statusCodes = [(0, 409), (1, 201)] ∧
      ∃ order, Linearizes Dialect.sql.respond .empty m.history order ∧
        s.users = state Dialect.sql.respond .empty order := by
  obtain ⟨⟨s, m⟩, hrun, hcodes⟩ : ∃ p ∈ ((lts Dialect.sql 2 .empty).record {} Ledger.write).run
      ((lts Dialect.sql 2 .empty).record {} Ledger.write).init raceRun,
      p.2.statusCodes = [(0, 409), (1, 201)] := by decide +kernel
  have h := LTS.reachable_of_run hrun
  exact ⟨s, m, h, hcodes, linearizable Dialect.escapes h⟩

end AuthServer

end MiniServer
