import MiniServer.Users.Dialect

/-!
# What the status codes say about the table

`Truthful` is what the status code of a routed request says about the table in front of it and
behind it.  `registerUser` and `loginUser` answer `false` for every failure, so a fault is answered
like a duplicate key, or like a missing row: `Harmless` says that this is what the request would
have been answered without the fault.
-/

namespace MiniServer

/-- The form value `username`. -/
def HttpRequest.username (request : HttpRequest) : Bytes :=
  RequestRouter.formValue request.body (.ofString "username")

/-- The form value `password`. -/
def HttpRequest.password (request : HttpRequest) : Bytes :=
  RequestRouter.formValue request.body (.ofString "password")

/-- A request that reaches the service. -/
def HttpRequest.IsAuth (request : HttpRequest) : Prop :=
  request.method = .post ∧ request.username ≠ [] ∧ request.password ≠ []

/-- The status code says the truth about the table. -/
@[mk_iff]
structure Truthful (request : HttpRequest) (before : Users) (statusCode : ℤ) (after : Users) :
    Prop where
  registered : statusCode = 201 →
    ¬ before.Stored request.username ∧
      after.rows = before.rows ++ [(request.username, request.password)]
  conflict : statusCode = 409 → before.Stored request.username
  loggedIn : statusCode = 200 → (request.username, request.password) ∈ before.rows
  refused : statusCode = 401 → (request.username, request.password) ∉ before.rows
  unchanged : statusCode ≠ 201 → after = before

/-- A fault does not make the answer wrong: the name is taken anyway, or no such row is stored. -/
def Harmless (request : HttpRequest) (before : Users) (fault : Option Fault) : Prop :=
  request.IsAuth →
    if request.path = .ofString "/register" then
      (∃ executed, fault = some (.query executed)) → before.Stored request.username
    else fault ≠ none → (request.username, request.password) ∉ before.rows

instance (request : HttpRequest) (before : Users) (fault : Option Fault) :
    Decidable (Harmless request before fault) :=
  inferInstanceAs (Decidable
    (request.method = .post ∧ request.username ≠ [] ∧ request.password ≠ [] →
      if request.path = .ofString "/register" then
        (∃ executed, fault = some (.query executed)) → before.Stored request.username
      else fault ≠ none → (request.username, request.password) ∉ before.rows))

namespace Sql

variable {sql : Sql}

/-! ### Statements -/

theorem meaning_insert (hsql : sql.Escapes) (username password : Bytes) :
    sql.meaning (Bytes.cstr (MySql.insertText (sql.escape username) (sql.escape password))) =
      some (.insert username password) := by
  rw [Bytes.cstr_eq_self_iff.2 (MySql.nul_not_mem_insertText (hsql.nul _) (hsql.nul _)),
    hsql.insert]

theorem meaning_select (hsql : sql.Escapes) (username password : Bytes) :
    sql.meaning (Bytes.cstr (MySql.selectText (sql.escape username) (sql.escape password))) =
      some (.select username password) := by
  rw [Bytes.cstr_eq_self_iff.2 (MySql.nul_not_mem_selectText (hsql.nul _) (hsql.nul _)),
    hsql.select]

/-- A statement that meets no fault is executed. -/
theorem run_query {text : Bytes} {statement : Statement} (h : sql.meaning text = some statement)
    {s : MySqlSession} (hfault : ∀ executed, s.fault ≠ some (.query executed)) :
    Id.run ((sql.query text).run s) = s.execute statement := by
  show s.answer (sql.meaning text) = _
  rw [h, MySqlSession.answer]
  split
  · rename_i executed heq
    exact absurd heq (hfault executed)
  · rfl

/-- A statement that meets a fault fails, executed or not. -/
theorem run_query_fault {text : Bytes} {statement : Statement}
    (h : sql.meaning text = some statement) {s : MySqlSession} {executed : Bool}
    (hfault : s.fault = some (.query executed)) :
    Id.run ((sql.query text).run s) =
      (false, if executed then (s.execute statement).2 else s) := by
  show s.answer (sql.meaning text) = _
  rw [h, MySqlSession.answer, hfault]

/-! ### The router -/

variable {users : Users} {fault : Option Fault} {request : HttpRequest}

/-- A request that does not reach the service. -/
theorem serve_of_not_isAuth (sql : Sql) (users : Users) (fault : Option Fault)
    (h : ¬ request.IsAuth) :
    sql.serve users fault request = (405, users) ∨
      sql.serve users fault request = (400, users) := by
  unfold serve RequestRouter.route
  by_cases hmethod : request.method = .post
  · have hmissing : RequestRouter.formValue request.body (.ofString "username") = [] ∨
        RequestRouter.formValue request.body (.ofString "password") = [] := by
      by_contra hnot
      rw [not_or] at hnot
      exact h ⟨hmethod, hnot⟩
    rw [if_neg (not_not.2 hmethod), if_pos hmissing]
    exact .inr rfl
  · rw [if_pos hmethod]
    exact .inl rfl

/-- A choice by the answer of a session. -/
theorem run_choice {σ α : Type} (x : StateM σ Bool) (a b : α) (s : σ) :
    Id.run (StateT.run (do if ← x then return a else return b) s) =
      (if (Id.run (x.run s)).1 then a else b, (Id.run (x.run s)).2) := by
  rw [StateT.run_bind]
  show Id.run (StateT.run (if (Id.run (x.run s)).1 then pure a else pure b) _) = _
  split_ifs <;> rfl

/-- A request that reaches the service is answered by what the operation returns. -/
theorem serve_of_isAuth (h : request.IsAuth) :
    sql.serve users fault request =
      if request.path = .ofString "/register" then
        let p := Id.run ((sql.client.registerUser request.username request.password).run
          { users, fault })
        (if p.1 then 201 else 409, p.2.users)
      else
        let p := Id.run ((sql.client.loginUser request.username request.password).run
          { users, fault })
        (if p.1 then 200 else 401, p.2.users) := by
  obtain ⟨hmethod, husername, hpassword⟩ := h
  have hmissing : ¬ (RequestRouter.formValue request.body (.ofString "username") = [] ∨
      RequestRouter.formValue request.body (.ofString "password") = []) :=
    not_or.2 ⟨husername, hpassword⟩
  unfold serve RequestRouter.route
  dsimp only
  rw [if_neg (not_not.2 hmethod), if_neg hmissing]
  by_cases hpath : request.path = .ofString "/register"
  · rw [if_pos hpath, if_pos hpath, run_choice]
    show (RoutedResponse.statusCode (if (Id.run ((sql.client.registerUser request.username
      request.password).run _)).1 then _ else _), _) = _
    split_ifs <;> rfl
  · rw [if_neg hpath, if_neg hpath, run_choice]
    show (RoutedResponse.statusCode (if (Id.run ((sql.client.loginUser request.username
      request.password).run _)).1 then _ else _), _) = _
    split_ifs <;> rfl

/-! ### The two operations -/

/-- A registration inserts the row or meets a duplicate key, unless there is a fault. -/
theorem serve_register (hsql : sql.Escapes) (h : request.IsAuth)
    (hpath : request.path = .ofString "/register")
    (hfault : ∀ executed, fault ≠ some (.query executed)) :
    sql.serve users fault request =
      match users.insert request.username request.password with
      | some users => (201, users)
      | none => (409, users) := by
  have hrun := run_query (meaning_insert hsql request.username request.password)
    (s := { users, fault }) hfault
  rw [serve_of_isAuth h, if_pos hpath]
  dsimp only
  rw [show Id.run ((sql.client.registerUser request.username request.password).run
    { users, fault }) = _ from hrun]
  cases hinsert : users.insert request.username request.password with
  | none =>
    simp only [MySqlSession.execute, hinsert]
    rfl
  | some users' =>
    simp only [MySqlSession.execute, hinsert]
    rfl

/-- With a fault, a registration is refused. -/
theorem serve_register_fault (users : Users) (hsql : sql.Escapes) (h : request.IsAuth)
    (hpath : request.path = .ofString "/register") {executed : Bool}
    (hfault : fault = some (.query executed)) :
    ∃ after, sql.serve users fault request = (409, after) ∧
      (users.Stored request.username → after = users) := by
  have hrun := run_query_fault (meaning_insert hsql request.username request.password)
    (s := { users, fault }) hfault
  rw [serve_of_isAuth h, if_pos hpath]
  dsimp only
  rw [show Id.run ((sql.client.registerUser request.username request.password).run
    { users, fault }) = _ from hrun]
  refine ⟨_, rfl, fun hstored => ?_⟩
  -- what MySQL executed was a duplicate
  have hnone : users.insert request.username request.password = none := dif_pos hstored
  dsimp only [MySqlSession.execute]
  rw [hnone]
  split_ifs <;> rfl

/-- What is behind a step is run with the answer and the session of the step. -/
theorem run_bind_of_eq {σ α β : Type} {x : StateM σ α} {s s' : σ} {a : α}
    (h : Id.run (x.run s) = (a, s')) (f : α → StateM σ β) :
    Id.run ((x >>= f).run s) = Id.run ((f a).run s') :=
  congrArg (fun p : α × σ => Id.run ((f p.1).run p.2)) h

/-- `loginUser` by what its query answers and the session behind it. -/
theorem run_loginUser {username password : Bytes} {s s' : MySqlSession} {ok : Bool}
    (hquery : Id.run ((sql.query (Bytes.cstr (MySql.selectText (sql.escape username)
      (sql.escape password)))).run s) = (ok, s')) :
    Id.run ((sql.client.loginUser username password).run s) =
      (ok && s'.fault ≠ some .result && s'.result = some 1, s') := by
  unfold MySql.loginUser
  refine (run_bind_of_eq hquery _).trans ?_
  cases ok with
  | false => rfl
  | true =>
    have hstore : Id.run (storeResult.run s') =
        (if s'.fault = some .result then none else s'.result, s') := rfl
    rw [if_pos rfl, Bool.true_and]
    refine (run_bind_of_eq hstore _).trans ?_
    by_cases hresult : s'.fault = some .result
    · rw [if_pos hresult, decide_eq_false (not_not.2 hresult)]
      rfl
    · rw [if_neg hresult, decide_eq_true hresult, Bool.true_and]
      cases s'.result with
      | none => rfl
      | some rows =>
        simp only [Option.some.injEq]
        rfl

/-- A login is answered by whether there is such a row, and with 401 when there is a fault. -/
theorem serve_login (hsql : sql.Escapes) (h : request.IsAuth)
    (hpath : request.path ≠ .ofString "/register") :
    sql.serve users fault request =
      (if fault = none ∧ (request.username, request.password) ∈ users.rows then 200 else 401,
        users) := by
  have hmeaning := meaning_select hsql request.username request.password
  rw [serve_of_isAuth h, if_neg hpath]
  dsimp only
  by_cases hquery : ∃ executed, fault = some (.query executed)
  · obtain ⟨executed, rfl⟩ := hquery
    rw [run_loginUser (run_query_fault hmeaning rfl)]
    cases executed <;> simp [MySqlSession.execute]
  · have hfault : ∀ executed, fault ≠ some (.query executed) := fun executed heq =>
      hquery ⟨executed, heq⟩
    rw [run_loginUser (run_query hmeaning (s := { users, fault }) hfault)]
    simp only [Bool.true_and, Option.some.injEq, Users.select_eq_one_iff]
    -- the only other fault is a null result
    cases fault with
    | none => simp
    | some f =>
      cases f with
      | query executed => exact absurd rfl (hfault executed)
      | result => simp

/-! ### One request -/

/-- A status code tells the truth exactly when no fault made it wrong. -/
theorem truthful_serve_iff (hsql : sql.Escapes) :
    Truthful request users (sql.serve users fault request).1 (sql.serve users fault request).2 ↔
      Harmless request users fault := by
  by_cases hauth : request.IsAuth
  · by_cases hpath : request.path = .ofString "/register"
    · have hharmless : Harmless request users fault ↔
          ((∃ executed, fault = some (.query executed)) → users.Stored request.username) := by
        unfold Harmless
        rw [if_pos hpath]
        exact ⟨fun h => h hauth, fun h _ => h⟩
      rw [hharmless]
      by_cases hfault : ∃ executed, fault = some (.query executed)
      · -- answered with 409, whatever the table holds
        obtain ⟨executed, hquery⟩ := hfault
        obtain ⟨after, hserve, hafter⟩ := serve_register_fault users hsql hauth hpath hquery
        rw [hserve, truthful_iff]
        constructor
        · exact fun h _ => h.2.1 rfl
        · intro h
          have hstored := h ⟨executed, hquery⟩
          simp [hstored, hafter hstored]
      · rw [serve_register hsql hauth hpath fun executed heq => hfault ⟨executed, heq⟩]
        refine iff_of_true ?_ fun h => absurd h hfault
        cases hinsert : users.insert request.username request.password with
        | none =>
          have hstored := Users.insert_eq_none_iff.1 hinsert
          simp [truthful_iff, hstored]
        | some users' =>
          obtain ⟨hnew, hrows⟩ := Users.insert_eq_some hinsert
          simp [truthful_iff, hnew, hrows]
    · -- a login changes nothing, and fails without a row or with a fault
      rw [serve_login hsql hauth hpath, truthful_iff]
      unfold Harmless
      rw [if_neg hpath]
      by_cases hrow : (request.username, request.password) ∈ users.rows
      · by_cases hfault : fault = none <;> simp [hrow, hfault, hauth]
      · simp [hrow]
  · refine iff_of_true ?_ fun h => absurd h hauth
    rcases serve_of_not_isAuth sql users fault hauth with h | h <;>
      simp [h, truthful_iff]

/-- A fault that makes the answer wrong is answered with 409 or 401. -/
theorem serve_of_not_harmless (hsql : sql.Escapes) (h : ¬ Harmless request users fault) :
    (sql.serve users fault request).1 = 409 ∨ (sql.serve users fault request).1 = 401 := by
  unfold Harmless at h
  rw [Classical.not_imp] at h
  obtain ⟨hauth, h⟩ := h
  by_cases hpath : request.path = .ofString "/register"
  · rw [if_pos hpath, Classical.not_imp] at h
    obtain ⟨⟨executed, hquery⟩, -⟩ := h
    obtain ⟨after, hserve, -⟩ := serve_register_fault users hsql hauth hpath hquery
    exact .inl (by rw [hserve])
  · rw [if_neg hpath, Classical.not_imp] at h
    rw [serve_login hsql hauth hpath]
    exact .inr (if_neg fun hrow => h.1 hrow.1)

end Sql

/-! ### Every sequence of requests -/

/-- A request that was routed, with the table in front of it and behind it. -/
structure Served where
  request : HttpRequest
  fault : Option Fault
  before : Users
  statusCode : ℤ
  after : Users

/-- The requests one after the other. -/
def Sql.serveAll (sql : Sql) : Users → List (HttpRequest × Option Fault) → List Served
  | _, [] => []
  | users, (request, fault) :: rest =>
    let (statusCode, after) := sql.serve users fault request
    ⟨request, fault, users, statusCode, after⟩ :: sql.serveAll after rest

theorem Sql.mem_serveAll {sql : Sql} {users : Users} {requests : List (HttpRequest × Option Fault)}
    {x : Served} (h : x ∈ sql.serveAll users requests) :
    (x.statusCode, x.after) = sql.serve x.before x.fault x.request := by
  induction requests generalizing users with
  | nil => cases h
  | cons r rest ih =>
    obtain ⟨request, fault⟩ := r
    rcases List.mem_cons.1 h with rfl | hrest
    · rfl
    · exact ih hrest

/-- **The status codes tell the truth exactly when no fault makes one wrong.**  For every table and
every sequence of requests and faults: all answers are truthful exactly when `mysql_query` fails in
`registerUser`, other than with a duplicate key, only for a name that is stored already, and no
step of `loginUser` fails for a row that is stored.  What 201 and 200 say holds in any case. -/
theorem Sql.status_codes_iff {sql : Sql} (hsql : sql.Escapes) (users : Users)
    (requests : List (HttpRequest × Option Fault)) :
    ((∀ x ∈ sql.serveAll users requests, Truthful x.request x.before x.statusCode x.after) ↔
      ∀ x ∈ sql.serveAll users requests, Harmless x.request x.before x.fault) ∧
    ∀ x ∈ sql.serveAll users requests,
      (x.statusCode = 201 → ¬ x.before.Stored x.request.username ∧
        x.after.rows = x.before.rows ++ [(x.request.username, x.request.password)]) ∧
      (x.statusCode = 200 → (x.request.username, x.request.password) ∈ x.before.rows) := by
  have hone : ∀ x ∈ sql.serveAll users requests,
      (Truthful x.request x.before x.statusCode x.after ↔
        Harmless x.request x.before x.fault) := by
    intro x hx
    have hserve := mem_serveAll hx
    have hiff : Truthful x.request x.before (sql.serve x.before x.fault x.request).1
        (sql.serve x.before x.fault x.request).2 ↔ Harmless x.request x.before x.fault :=
      truthful_serve_iff hsql
    rwa [← hserve] at hiff
  refine ⟨forall₂_congr hone, fun x hx => ?_⟩
  by_cases hharmless : Harmless x.request x.before x.fault
  · have htruthful := (hone x hx).2 hharmless
    exact ⟨htruthful.registered, htruthful.loggedIn⟩
  · have hcode := serve_of_not_harmless hsql hharmless
    rw [← mem_serveAll hx] at hcode
    refine ⟨fun hcreated => ?_, fun hok => ?_⟩
    · rw [hcreated] at hcode
      exact hcode.elim nofun nofun
    · rw [hok] at hcode
      exact hcode.elim nofun nofun

/-- A request as `parse` leaves it. -/
def parsedRequest (raw : String) : HttpRequest := (({} : HttpRequest).parse (.ofString raw)).2

/-- A registration. -/
def registerRequest : HttpRequest :=
  parsedRequest "POST /register HTTP/1.1\r\n\r\nusername=alice&password=secret"

/-- A login with the password of the registration, or with another one. -/
def loginRequest (password : String) : HttpRequest :=
  parsedRequest ("POST /login HTTP/1.1\r\n\r\nusername=alice&password=" ++ password)

/-- The requests of the smoke test, and a registration that loses its connection. -/
theorem Sql.status_codes_iff_smoke :
    let served := Dialect.sql.serveAll .empty [(registerRequest, none),
      (loginRequest "secret", none), (loginRequest "wrong", none), (registerRequest, none),
      (registerRequest, some (.query true))]
    served.map (·.statusCode) = [201, 200, 401, 409, 409] ∧
      ∀ x ∈ served, Truthful x.request x.before x.statusCode x.after := by
  intro served
  have hharmless : ∀ x ∈ served, Harmless x.request x.before x.fault := by decide +kernel
  exact ⟨by decide +kernel, (status_codes_iff Dialect.escapes _ _).1.2 hharmless⟩

/-- **A failure of MySQL is answered with a wrong reason.**  A registration under a new name whose
connection is lost is answered with 409, a login with the right password with 401. -/
theorem Sql.failure_answered_409 :
    let served := Dialect.sql.serveAll .empty [(registerRequest, some (.query false)),
      (registerRequest, none), (loginRequest "secret", some .result)]
    (∃ x ∈ served, x.statusCode = 409 ∧ ¬ x.before.Stored x.request.username) ∧
      ∃ x ∈ served, x.statusCode = 401 ∧
        (x.request.username, x.request.password) ∈ x.before.rows := by
  decide +kernel

end MiniServer
