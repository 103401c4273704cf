import MiniServer.Users.Concurrent

/-!
# What an account is to its owner

The table only grows, and a username keeps its password: `Users` is a write-once map.  With
`AuthServer.Linearized` this says what clients see of each other, whatever the order in which their
handlers step (`AuthServer.registered_for_good`, `AuthServer.login_needs_registration`).
-/

namespace MiniServer

variable {sql : Sql} {users : Users} {op : UserOp}

/-- The account that a request names. -/
def UserOp.account (op : UserOp) : Bytes × Bytes := (op.1.username, op.1.password)

/-- A registration that reaches the service. -/
def UserOp.Registers (op : UserOp) : Prop := op.1.IsAuth ∧ op.1.path = .ofString "/register"

/-! ### The table as a write-once map -/

/-- A username has one password. -/
theorem Users.password_unique {username password password' : Bytes}
    (h : (username, password) ∈ users.rows) (h' : (username, password') ∈ users.rows) :
    password = password' :=
  congrArg Prod.snd (List.inj_on_of_nodup_map users.unique h h' rfl)

theorem Users.stored_of_mem {username password : Bytes} (h : (username, password) ∈ users.rows) :
    users.Stored username := List.mem_map_of_mem h

namespace Sql

/-- Whatever the client hears of it, MySQL has executed an `INSERT` or has not. -/
theorem users_query_insert {text username password : Bytes}
    (h : sql.meaning text = some (.insert username password)) (s : MySqlSession) :
    (Id.run ((sql.query text).run s)).2.users = s.users ∨
      s.users.insert username password = some (Id.run ((sql.query text).run s)).2.users := by
  have hexecute : (s.execute (.insert username password)).2.users = s.users ∨
      s.users.insert username password =
        some (s.execute (.insert username password)).2.users := by
    simp only [MySqlSession.execute]
    cases s.users.insert username password with
    | none => exact .inl rfl
    | some users' => exact .inr rfl
  by_cases hquery : ∃ executed, s.fault = some (.query executed)
  · obtain ⟨executed, hfault⟩ := hquery
    rw [run_query_fault h hfault]
    cases executed with
    | false => exact .inl rfl
    | true => exact hexecute
  · rw [not_exists] at hquery
    rw [run_query h hquery]
    exact hexecute

/-- A request adds nothing to the table or, if it is a registration, its own account. -/
theorem respond_rows (hsql : sql.Escapes) (users : Users) (op : UserOp) :
    (sql.respond users op).2 = users ∨ op.Registers ∧
      (sql.respond users op).2.rows = users.rows ++ [op.account] := by
  by_cases hauth : op.1.IsAuth
  · by_cases hpath : op.1.path = .ofString "/register"
    · rw [DbProgram.respond_of_isAuth sql users hauth, RequestRouter.callUser, if_pos hpath]
      refine (users_query_insert (meaning_insert hsql op.1.username op.1.password)
        ⟨users, op.2, none⟩).imp_right fun hinsert => ⟨⟨hauth, hpath⟩, ?_⟩
      exact (Users.insert_eq_some hinsert).2
    · have hserve : sql.serve users op.2 op.1 = _ := serve_login hsql hauth hpath
      rw [serve_eq] at hserve
      exact .inl (congrArg Prod.snd hserve)
  · exact .inl (congrArg Prod.snd (DbProgram.respond_of_not_isAuth sql users hauth))

/-- An account stays. -/
theorem mem_respond (hsql : sql.Escapes) {row : Bytes × Bytes} (h : row ∈ users.rows) :
    row ∈ (sql.respond users op).2.rows := by
  rcases respond_rows hsql users op with hsame | ⟨-, hrows⟩
  · rwa [hsame]
  · rw [hrows]
    exact List.mem_append_left _ h

/-- What is answered with 201 is in the table from then on. -/
theorem of_respond_created (hsql : sql.Escapes)
    (h : (sql.respond users op).1.statusCode = 201) :
    op.1.IsAuth ∧ ¬ users.Stored op.1.username ∧ op.account ∈ (sql.respond users op).2.rows := by
  have hserve := serve_eq sql users op
  have hauth : op.1.IsAuth := by
    by_contra hauth
    rcases serve_of_not_isAuth sql users op.2 hauth with heq | heq <;>
      rw [heq, h] at hserve <;> cases hserve
  have hharmless : Harmless op.1 users op.2 := by
    by_contra hharmless
    have hcode := serve_of_not_harmless hsql hharmless
    rw [hserve, h] at hcode
    exact hcode.elim nofun nofun
  have htruthful := (truthful_serve_iff hsql).2 hharmless
  rw [hserve] at htruthful
  obtain ⟨hnew, hrows⟩ := htruthful.registered h
  exact ⟨hauth, hnew, hrows ▸ List.mem_append_right _ List.mem_cons_self⟩

/-- What is answered with 200 is in the table. -/
theorem of_respond_ok (hsql : sql.Escapes) (h : (sql.respond users op).1.statusCode = 200) :
    op.account ∈ users.rows := by
  have hserve := serve_eq sql users op
  have hharmless : Harmless op.1 users op.2 := by
    by_contra hharmless
    have hcode := serve_of_not_harmless hsql hharmless
    rw [hserve, h] at hcode
    exact hcode.elim nofun nofun
  have htruthful := (truthful_serve_iff hsql).2 hharmless
  rw [hserve] at htruthful
  exact htruthful.loggedIn h

/-- The status code for a username that is stored. -/
theorem statusCode_of_mem (hsql : sql.Escapes) {password : Bytes}
    (h : (op.1.username, password) ∈ users.rows) (hauth : op.1.IsAuth) :
    (sql.respond users op).1.statusCode =
      if op.1.path = .ofString "/register" then 409
      else if op.2 = none ∧ op.1.password = password then 200 else 401 := by
  have hserve := congrArg Prod.fst (serve_eq sql users op)
  rw [show (sql.respond users op).1.statusCode = _ from hserve.symm]
  split_ifs with hpath hlogin
  · by_cases hquery : ∃ executed, op.2 = some (.query executed)
    · obtain ⟨executed, hfault⟩ := hquery
      obtain ⟨after, heq, -⟩ := serve_register_fault users hsql hauth hpath hfault
      rw [heq]
    · rw [serve_register hsql hauth hpath (not_exists.1 hquery),
        Users.insert_eq_none_iff.2 (Users.stored_of_mem h)]
  · obtain ⟨hfault, rfl⟩ := hlogin
    rw [serve_login hsql hauth hpath, if_pos ⟨hfault, h⟩]
  · rw [serve_login hsql hauth hpath, if_neg]
    rintro ⟨hfault, hrow⟩
    exact hlogin ⟨hfault, Users.password_unique hrow h⟩

end Sql

/-! ### What clients see -/

namespace AuthServer

open SeqObject

variable {poolSize : ℕ} {users₀ : Users} {s : AuthServer} {m : Ledger}

/-- An account that is in the table stays there. -/
theorem mem_state (hsql : sql.Escapes) {row : Bytes × Bytes} (h : row ∈ users.rows)
    (order : List (ℕ × UserOp)) : row ∈ (state sql.respond users order).rows :=
  state_induction (P := fun users : Users => row ∈ users.rows)
    (fun _ _ hrow => Sql.mem_respond hsql hrow) h order

/-- An account comes from the table or from a registration. -/
theorem mem_state_cases (hsql : sql.Escapes) {row : Bytes × Bytes} {order : List (ℕ × UserOp)}
    (h : row ∈ (state sql.respond users order).rows) :
    row ∈ users.rows ∨ ∃ x ∈ order, x.2.Registers ∧ x.2.account = row := by
  induction order generalizing users with
  | nil => exact .inl h
  | cons x order ih =>
    rcases ih h with hrow | ⟨y, hy, hregisters⟩
    · rcases Sql.respond_rows hsql users x.2 with hsame | ⟨hregisters, hrows⟩
      · exact .inl (hsame ▸ hrow)
      · rw [hrows, List.mem_append, List.mem_singleton] at hrow
        exact hrow.imp_right fun heq => ⟨x, List.mem_cons_self, hregisters, heq.symm⟩
    · exact .inr ⟨y, List.mem_cons_of_mem _ hy, hregisters⟩

/-- An account that was created is in the table of every request that takes effect behind. -/
theorem account_mem (hsql : sql.Escapes) (hs : Linearized sql users₀ s m) {a b : ℕ}
    {opa opb : UserOp} {ra : RoutedResponse} (hreta : .returned a ra ∈ m.history)
    (hcreated : ra.statusCode = 201) {o₁ o₂ o₃ : List (ℕ × UserOp)}
    (heq : m.order = o₁ ++ (a, opa) :: (o₂ ++ (b, opb) :: o₃)) :
    opa.account ∈ (state sql.respond users₀ (o₁ ++ (a, opa) :: o₂)).rows := by
  have hra := hs.linearizes.answer_eq heq hreta
  rw [hra] at hcreated
  rw [state_append, state_cons]
  exact mem_state hsql (Sql.of_respond_created hsql hcreated).2.2 o₂

/-- A name is not registered behind a registration that was answered with 201. -/
theorem not_created_behind (hsql : sql.Escapes) (hs : Linearized sql users₀ s m) {a b : ℕ}
    {opa opb : UserOp} {ra rb : RoutedResponse} (hreta : .returned a ra ∈ m.history)
    (hcreated : ra.statusCode = 201) (hretb : .returned b rb ∈ m.history)
    {o₁ o₂ o₃ : List (ℕ × UserOp)}
    (heq : m.order = o₁ ++ (a, opa) :: (o₂ ++ (b, opb) :: o₃))
    (hname : opb.1.username = opa.1.username) : rb.statusCode ≠ 201 := by
  intro hcreatedb
  have hmem := account_mem hsql hs hreta hcreated heq
  have hsplit : m.order = (o₁ ++ (a, opa) :: o₂) ++ (b, opb) :: o₃ := by simpa using heq
  rw [hs.linearizes.answer_eq hsplit hretb] at hcreatedb
  refine (Sql.of_respond_created hsql hcreatedb).2.1 ?_
  rw [hname]
  exact Users.stored_of_mem hmem

/-- **An account is for good.**  When a registration has been answered with 201, every later
registration of the username is answered with 409 and every later login with 200 or 401, by whether
it has this password; and no other registration of the username is answered with 201, not even one
at the same time. -/
theorem registered_for_good (hsql : sql.Escapes)
    (h : ((lts sql poolSize users₀).record {} Ledger.write).Reachable (s, m)) {a : ℕ}
    {opa : UserOp} {ra : RoutedResponse} (hcalla : .called a opa ∈ m.history)
    (hreta : .returned a ra ∈ m.history) (hcreated : ra.statusCode = 201) :
    (∀ b opb rb, .called b opb ∈ m.history → .returned b rb ∈ m.history →
      Precedes m.history a b → opb.1.IsAuth → opb.1.username = opa.1.username →
      rb.statusCode = if opb.1.path = .ofString "/register" then 409
        else if opb.2 = none ∧ opb.1.password = opa.1.password then 200 else 401) ∧
    ∀ b opb rb, .called b opb ∈ m.history → .returned b rb ∈ m.history → rb.statusCode = 201 →
      opb.1.username = opa.1.username → b = a := by
  have hs := linearized_of_reachable hsql h
  constructor
  · intro b opb rb hcallb hretb hab hauth hname
    obtain ⟨o₁, o₂, o₃, heq⟩ := hs.linearizes.before hab hcalla hcallb hreta hretb
    have hmem := account_mem hsql hs hreta hcreated heq
    rw [UserOp.account, ← hname] at hmem
    have hsplit : m.order = (o₁ ++ (a, opa) :: o₂) ++ (b, opb) :: o₃ := by simpa using heq
    rw [hs.linearizes.answer_eq hsplit hretb]
    exact Sql.statusCode_of_mem hsql hmem hauth
  · intro b opb rb hcallb hretb hcreatedb hname
    by_contra hne
    rcases hs.linearizes.order_cases (Ne.symm hne) hcalla hcallb hreta hretb with
      ⟨o₁, o₂, o₃, heq⟩ | ⟨o₁, o₂, o₃, heq⟩
    · exact not_created_behind hsql hs hreta hcreated hretb heq hname hcreatedb
    · exact not_created_behind hsql hs hretb hcreatedb hreta heq hname.symm hcreated

/-- A registration, and a login with its password and one with another. -/
def accountRun : List Label :=
  startRun ++ [.call (registerRequest, none), .step 0, .step 0, .step 0, .returns 0] ++
    [.call (loginRequest "secret", none), .call (loginRequest "wrong", none)] ++
    [.step 1, .step 2, .step 2, .step 1, .step 1, .step 2, .step 1, .step 2, .returns 1, .returns 2]

/-- The response to a registration that succeeds. -/
def registered : RoutedResponse := RequestRouter.responseTo registerRequest true

theorem registered_for_good_sample : ∃ s m,
    ((lts Dialect.sql 2 .empty).record {} Ledger.write).Reachable (s, m) ∧
      m.statusCodes = [(0, 201), (1, 200), (2, 401)] ∧
      ∀ b opb rb, .called b opb ∈ m.history → .returned b rb ∈ m.history → rb.statusCode = 201 →
        opb.1.username = registerRequest.username → b = 0 := by
  obtain ⟨⟨s, m⟩, hrun, hcodes, hcalled, hreturned⟩ :
      ∃ p ∈ ((lts Dialect.sql 2 .empty).record {} Ledger.write).run
        ((lts Dialect.sql 2 .empty).record {} Ledger.write).init accountRun,
      p.2.statusCodes = [(0, 201), (1, 200), (2, 401)] ∧
        .called 0 (registerRequest, none) ∈ p.2.history ∧
        .returned 0 registered ∈ p.2.history := by decide +kernel
  have h := LTS.reachable_of_run hrun
  have hcreated : registered.statusCode = 201 := by decide +kernel
  exact ⟨s, m, h, hcodes, (registered_for_good Dialect.escapes h hcalled hreturned hcreated).2⟩

/-- **No login without a registration.**  When a login has been answered with 200, its account was
in the table from the start or a registration of exactly this account has been called. -/
theorem login_needs_registration (hsql : sql.Escapes)
    (h : ((lts sql poolSize users₀).record {} Ledger.write).Reachable (s, m)) {b : ℕ}
    {opb : UserOp} {rb : RoutedResponse} (hcallb : .called b opb ∈ m.history)
    (hretb : .returned b rb ∈ m.history) (hok : rb.statusCode = 200) :
    opb.account ∈ users₀.rows ∨
      ∃ a opa, .called a opa ∈ m.history ∧ opa.Registers ∧ opa.account = opb.account := by
  have hs := linearized_of_reachable hsql h
  obtain ⟨⟨k, op⟩, hmem, rfl⟩ := List.mem_map.1 (hs.linearizes.mem_order hretb)
  obtain rfl := hs.linearizes.single _ _ _ hcallb (hs.linearizes.called _ _ hmem)
  obtain ⟨o₁, o₂, heq⟩ := List.append_of_mem hmem
  rw [hs.linearizes.answer_eq heq hretb] at hok
  refine (mem_state_cases hsql (Sql.of_respond_ok hsql hok)).imp_right ?_
  rintro ⟨⟨a, opa⟩, hin, hregisters, haccount⟩
  have hina : (a, opa) ∈ m.order := heq ▸ List.mem_append_left _ hin
  exact ⟨a, opa, hs.linearizes.called a opa hina, hregisters, haccount⟩

theorem login_needs_registration_sample : ∃ s m,
    ((lts Dialect.sql 2 .empty).record {} Ledger.write).Reachable (s, m) ∧
      m.statusCodes = [(0, 201), (1, 200), (2, 401)] ∧
      ∃ a opa, .called a opa ∈ m.history ∧ opa.Registers ∧
        opa.account = UserOp.account (loginRequest "secret", none) := by
  obtain ⟨⟨s, m⟩, hrun, hcodes, hcalled, hreturned⟩ :
      ∃ p ∈ ((lts Dialect.sql 2 .empty).record {} Ledger.write).run
        ((lts Dialect.sql 2 .empty).record {} Ledger.write).init accountRun,
      p.2.statusCodes = [(0, 201), (1, 200), (2, 401)] ∧
        .called 1 (loginRequest "secret", none) ∈ p.2.history ∧
        .returned 1 (RequestRouter.responseTo (loginRequest "secret") true) ∈ p.2.history := by
    decide +kernel
  have h := LTS.reachable_of_run hrun
  have hok : (RequestRouter.responseTo (loginRequest "secret") true).statusCode = 200 := by
    decide +kernel
  exact ⟨s, m, h, hcodes, (login_needs_registration Dialect.escapes h hcalled hreturned
    hok).resolve_left List.not_mem_nil⟩

end AuthServer

end MiniServer
