import Mathlib.Tactic.Convert
import MiniServer.Users.Answers

/-!
# What a handler does with its connection

`DbProgram` is what a handler does with the pool and with MySQL, one step after the other.  The
router and the service are those of `Http.Router` and `Users.Service`, in the monad of these
programs; `registerUser` and `loginUser` hold a lease for the time of the call.

`serves_route` says how such a program runs: at most one statement reads or changes the table, it is
sent on the connection of a lease, and behind it the handler reads nothing but its own result.
-/

namespace MiniServer

/-- A request, with what goes wrong while it is served. -/
abbrev UserOp := HttpRequest × Option Fault

instance (request : HttpRequest) : Decidable request.IsAuth :=
  inferInstanceAs (Decidable (_ ∧ _ ∧ _))

/-- A request that is served alone. -/
def Sql.respond (sql : Sql) (users : Users) (op : UserOp) : RoutedResponse × Users :=
  let (routed, s) := Id.run ((RequestRouter.route sql.client.userService op.1).run
    { users, fault := op.2 })
  (routed, s.users)

theorem Sql.serve_eq (sql : Sql) (users : Users) (op : UserOp) :
    sql.serve users op.2 op.1 = ((sql.respond users op).1.statusCode, (sql.respond users op).2) :=
  rfl

namespace RequestRouter

variable {request : HttpRequest}

/-- The call of a request that reaches the service. -/
def callUser {m : Type → Type} (users : UserService m) (request : HttpRequest) : m Bool :=
  if request.path = .ofString "/register" then
    users.registerUser request.username request.password
  else users.loginUser request.username request.password

/-- The response when the service answers `ok`. -/
def responseTo (request : HttpRequest) (ok : Bool) : RoutedResponse :=
  Id.run (route ⟨fun _ _ => pure ok, fun _ _ => pure ok⟩ request)

/-- In every monad, the router makes one call and chooses between two responses. -/
theorem route_of_isAuth (h : request.IsAuth) {m : Type → Type} [Monad m] (users : UserService m) :
    route users request = callUser users request >>= fun ok =>
      if ok then pure (responseTo request true) else pure (responseTo request false) := by
  obtain ⟨hmethod, husername, hpassword⟩ := h
  have hmissing : ¬ (formValue request.body (.ofString "username") = [] ∨
      formValue request.body (.ofString "password") = []) := not_or.2 ⟨husername, hpassword⟩
  unfold responseTo route callUser
  dsimp only
  by_cases hpath : request.path = .ofString "/register"
  · simp only [if_neg (not_not.2 hmethod), if_neg hmissing, if_pos hpath]
    rfl
  · simp only [if_neg (not_not.2 hmethod), if_neg hmissing, if_neg hpath]
    rfl

/-- In every monad, the router itself answers a request that does not reach the service. -/
theorem route_of_not_isAuth (h : ¬ request.IsAuth) {m : Type → Type} [Monad m]
    (users : UserService m) : route users request = pure (responseTo request true) := by
  unfold responseTo route
  dsimp only
  by_cases hmethod : request.method = .post
  · have hmissing : formValue request.body (.ofString "username") = [] ∨
        formValue request.body (.ofString "password") = [] := by
      by_contra hnot
      rw [not_or] at hnot
      exact h ⟨hmethod, hnot⟩
    simp only [if_neg (not_not.2 hmethod), if_pos hmissing]
    rfl
  · simp only [if_pos hmethod]
    rfl

end RequestRouter

/-- What a handler has still to do. -/
inductive DbProgram (α : Type) where
  | done (a : α)
  /-- `pool_.acquire()`. -/
  | acquire (next : DbProgram α)
  /-- `mysql_query`. -/
  | query (text : Bytes) (next : Bool → DbProgram α)
  /-- `mysql_store_result` and `mysql_num_rows`. -/
  | storeResult (next : Option ℕ → DbProgram α)
  /-- `~Lease()`. -/
  | release (next : DbProgram α)

namespace DbProgram

variable {α β : Type}

/-- One program and then another one. -/
def bind (f : α → DbProgram β) : DbProgram α → DbProgram β
  | .done a => f a
  | .acquire next => .acquire (next.bind f)
  | .query text next => .query text fun ok => (next ok).bind f
  | .storeResult next => .storeResult fun rows => (next rows).bind f
  | .release next => .release (next.bind f)

instance : Monad DbProgram where
  pure := .done
  bind x f := x.bind f

/-- The program, with nobody else on the connection. -/
def run (sql : Sql) : DbProgram α → MySqlSession → α × MySqlSession
  | .done a, s => (a, s)
  | .acquire next, s => next.run sql s
  | .query text next, s =>
    let (ok, s) := Id.run ((sql.query text).run s)
    (next ok).run sql s
  | .storeResult next, s =>
    let (rows, s) := Id.run (Sql.storeResult.run s)
    (next rows).run sql s
  | .release next, s => next.run sql s

/-- A call for which a lease lives. -/
def leased (x : DbProgram α) : DbProgram α := .acquire (x.bind fun a => .release (.done a))

end DbProgram

namespace Sql

/-- The MySQL client of a handler. -/
def programs (sql : Sql) : MySql DbProgram where
  realEscapeString := sql.escape
  query text := .query text .done
  storeResult := .storeResult .done

/-- The service of a handler. -/
def leasedService (sql : Sql) : UserService DbProgram where
  registerUser username password := (sql.programs.registerUser username password).leased
  loginUser username password := (sql.programs.loginUser username password).leased

/-- `router_.route(request)`. -/
def route (sql : Sql) (request : HttpRequest) : DbProgram RoutedResponse :=
  RequestRouter.route sql.leasedService request

end Sql

namespace DbProgram

variable {α : Type} {sql : Sql}

/-- Only the result of the connection is read, and then the lease is destroyed. -/
inductive Quiet : DbProgram α → Prop
  | storeResult (answer : Option ℕ → α) :
      Quiet (.storeResult fun rows => .release (.done (answer rows)))
  | release (a : α) : Quiet (.release (.done a))

/-- A quiet program does not depend on the table. -/
theorem Quiet.run_users {p : DbProgram α} (h : Quiet p) (users users' : Users)
    (fault : Option Fault) (result : Option ℕ) :
    (p.run sql ⟨users, fault, result⟩).1 = (p.run sql ⟨users', fault, result⟩).1 := by
  cases h <;> rfl

theorem Quiet.run_snd {p : DbProgram α} (h : Quiet p) (s : MySqlSession) :
    (p.run sql s).2 = s := by
  cases h <;> rfl

/-- The program takes a lease, sends one statement and is quiet behind it; on any connection it
gives what `f` gives. -/
structure Serves (sql : Sql) (fault : Option Fault) (f : Users → α × Users) (p : DbProgram α) :
    Prop where
  query : ∃ text next, p = .query text next ∧ ∀ ok, Quiet (next ok)
  run : ∀ users result, ((p.run sql ⟨users, fault, result⟩).1,
    (p.run sql ⟨users, fault, result⟩).2.users) = f users

theorem run_bind {β : Type} (sql : Sql) (x : DbProgram α) (f : α → DbProgram β) (s : MySqlSession) :
    (x.bind f).run sql s = (f (x.run sql s).1).run sql (x.run sql s).2 := by
  induction x generalizing s with
  | done a => rfl
  | acquire next ih => exact ih s
  | query text next ih => exact ih _ _
  | storeResult next ih => exact ih _ _
  | release next ih => exact ih s

theorem run_leased (sql : Sql) (x : DbProgram α) (s : MySqlSession) :
    x.leased.run sql s = x.run sql s := by
  show (x.bind _).run sql s = _
  rw [run_bind]
  rfl

/-! ### The two operations -/

theorem run_loginUser (sql : Sql) (username password : Bytes) (s : MySqlSession) :
    (sql.programs.loginUser username password).run sql s =
      Id.run ((sql.client.loginUser username password).run s) := by
  obtain ⟨⟨ok, s'⟩, hquery⟩ : ∃ p, Id.run ((sql.query (Bytes.cstr (MySql.selectText
      (sql.escape username) (sql.escape password)))).run s) = p := ⟨_, rfl⟩
  rw [Sql.run_loginUser hquery]
  unfold MySql.loginUser
  refine (run_bind sql _ _ s).trans ?_
  have hrun : run sql (sql.programs.query (Bytes.cstr (MySql.selectText (sql.escape username)
      (sql.escape password)))) s = (ok, s') := hquery
  rw [show run sql (sql.programs.query (Bytes.cstr (MySql.selectText
    (sql.programs.escape username) (sql.programs.escape password)))) s = _ from hrun]
  cases ok with
  | false => rfl
  | true =>
    obtain ⟨rows, hrows⟩ : ∃ rows, (if s'.fault = some .result then none else s'.result) = rows :=
      ⟨_, rfl⟩
    have hstore : Id.run (Sql.storeResult.run s') = (rows, s') := hrows ▸ rfl
    rw [if_pos rfl]
    refine (run_bind sql sql.programs.storeResult _ s').trans ?_
    rw [show run sql sql.programs.storeResult s' = _ from hstore, ← hrows]
    by_cases hresult : s'.fault = some .result
    · rw [if_pos hresult, decide_eq_false (not_not.2 hresult)]
      rfl
    · rw [if_neg hresult, decide_eq_true hresult]
      cases s'.result with
      | none => rfl
      | some rows =>
        simp only [Option.some.injEq]
        rfl

theorem run_callUser (sql : Sql) (request : HttpRequest) (s : MySqlSession) :
    (RequestRouter.callUser sql.leasedService request).run sql s =
      Id.run ((RequestRouter.callUser sql.client.userService request).run s) := by
  unfold RequestRouter.callUser
  split_ifs
  · exact run_leased sql _ s
  · exact (run_leased sql _ s).trans (run_loginUser sql _ _ s)

/-! ### The connection -/

/-- An `INSERT` does not see what was answered before on the connection. -/
theorem query_insert_result {text username password : Bytes}
    (h : sql.meaning text = some (.insert username password)) (users : Users)
    (fault : Option Fault) (result : Option ℕ) :
    Prod.map id MySqlSession.users (Id.run ((sql.query text).run ⟨users, fault, result⟩)) =
      Prod.map id MySqlSession.users (Id.run ((sql.query text).run ⟨users, fault, none⟩)) := by
  by_cases hquery : ∃ executed, fault = some (.query executed)
  · obtain ⟨executed, rfl⟩ := hquery
    rw [Sql.run_query_fault h rfl, Sql.run_query_fault h rfl]
    simp only [MySqlSession.execute]
    cases users.insert username password <;> cases executed <;> rfl
  · rw [not_exists] at hquery
    rw [Sql.run_query (s := ⟨users, fault, result⟩) h hquery,
      Sql.run_query (s := ⟨users, fault, none⟩) h hquery]
    simp only [MySqlSession.execute]
    cases users.insert username password <;> rfl

/-- What MySQL answered before on the connection has no influence. -/
theorem callUser_result (hsql : sql.Escapes) (request : HttpRequest) (users : Users)
    (fault : Option Fault) (result : Option ℕ) :
    Prod.map id MySqlSession.users (Id.run ((RequestRouter.callUser sql.client.userService
      request).run ⟨users, fault, result⟩)) =
    Prod.map id MySqlSession.users (Id.run ((RequestRouter.callUser sql.client.userService
      request).run ⟨users, fault, none⟩)) := by
  have hselect := Sql.meaning_select hsql request.username request.password
  unfold RequestRouter.callUser
  by_cases hpath : request.path = .ofString "/register"
  · rw [if_pos hpath]
    exact query_insert_result (Sql.meaning_insert hsql request.username request.password) users
      fault result
  · rw [if_neg hpath]
    show Prod.map id MySqlSession.users (Id.run ((sql.client.loginUser _ _).run _)) =
      Prod.map id MySqlSession.users (Id.run ((sql.client.loginUser _ _).run _))
    by_cases hquery : ∃ executed, fault = some (.query executed)
    · obtain ⟨executed, rfl⟩ := hquery
      rw [Sql.run_loginUser (Sql.run_query_fault hselect rfl),
        Sql.run_loginUser (Sql.run_query_fault hselect rfl)]
      cases executed <;> rfl
    · -- the `SELECT` replaces the result
      rw [not_exists] at hquery
      rw [Sql.run_loginUser (Sql.run_query (s := ⟨users, fault, result⟩) hselect hquery),
        Sql.run_loginUser (Sql.run_query (s := ⟨users, fault, none⟩) hselect hquery)]

/-! ### The router -/

theorem respond_of_not_isAuth (sql : Sql) (users : Users) {op : UserOp} (h : ¬ op.1.IsAuth) :
    sql.respond users op = (RequestRouter.responseTo op.1 true, users) := by
  unfold Sql.respond
  rw [RequestRouter.route_of_not_isAuth h]
  rfl

theorem respond_of_isAuth (sql : Sql) (users : Users) {op : UserOp} (h : op.1.IsAuth) :
    sql.respond users op = Prod.map (RequestRouter.responseTo op.1) MySqlSession.users
      (Id.run ((RequestRouter.callUser sql.client.userService op.1).run
        ⟨users, op.2, none⟩)) := by
  unfold Sql.respond
  rw [RequestRouter.route_of_isAuth h, Sql.run_choice]
  generalize Id.run ((RequestRouter.callUser sql.client.userService op.1).run _) = p
  obtain ⟨ok, s⟩ := p
  cases ok <;> rfl

theorem route_of_not_isAuth (sql : Sql) {request : HttpRequest} (h : ¬ request.IsAuth) :
    sql.route request = .done (RequestRouter.responseTo request true) :=
  RequestRouter.route_of_not_isAuth h sql.leasedService

theorem Quiet.bind {β : Type} {p : DbProgram α} (h : Quiet p) {f : α → DbProgram β} {g : α → β}
    (hf : ∀ a, f a = .done (g a)) : Quiet (p.bind f) := by
  obtain rfl : f = fun a => .done (g a) := funext hf
  cases h with
  | storeResult answer => exact .storeResult fun rows => g (answer rows)
  | release a => exact .release (g a)

theorem exists_callUser (sql : Sql) (request : HttpRequest) : ∃ text next,
    RequestRouter.callUser sql.leasedService request = .acquire (.query text next) ∧
      ∀ ok, Quiet (next ok) := by
  unfold RequestRouter.callUser
  split_ifs
  · exact ⟨_, _, rfl, fun ok => .release ok⟩
  · refine ⟨_, _, rfl, fun ok => ?_⟩
    cases ok with
    | false => exact .release false
    | true =>
      convert Quiet.storeResult fun rows : Option ℕ => rows.any (· = 1) using 1
      show DbProgram.storeResult _ = _
      congr 1
      funext rows
      cases rows <;> rfl

/-- A request that reaches the service takes a lease, and is then served as if it were alone. -/
theorem exists_route_of_isAuth (hsql : sql.Escapes) {op : UserOp} (h : op.1.IsAuth) :
    ∃ p, sql.route op.1 = .acquire p ∧ Serves sql op.2 (fun users => sql.respond users op) p := by
  obtain ⟨text, next, hcall, hquiet⟩ := exists_callUser sql op.1
  obtain ⟨f, hf, hroute⟩ : ∃ f : Bool → DbProgram RoutedResponse,
      (∀ ok, f ok = .done (RequestRouter.responseTo op.1 ok)) ∧
        sql.route op.1 = (RequestRouter.callUser sql.leasedService op.1).bind f := by
    refine ⟨_, fun ok => ?_, RequestRouter.route_of_isAuth h sql.leasedService⟩
    cases ok <;> rfl
  refine ⟨(query text next).bind f, by rw [hroute, hcall]; rfl,
    ⟨_, _, rfl, fun ok => (hquiet ok).bind hf⟩, fun users result => ?_⟩
  have hrun := run_bind sql (RequestRouter.callUser sql.leasedService op.1) f
    ⟨users, op.2, result⟩
  rw [hcall] at hrun
  rw [show ((query text next).bind f).run sql ⟨users, op.2, result⟩ = _ from hrun, ← hcall,
    run_callUser, hf, respond_of_isAuth sql users h]
  exact congrArg (Prod.map (RequestRouter.responseTo op.1) id)
    (callUser_result hsql op.1 users op.2 result)

end DbProgram

end MiniServer
