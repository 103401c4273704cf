import Mathlib.Data.List.Nodup
import MiniServer.Http.Router

/-!
# The user service

`registerUser` and `loginUser` send one text each to MySQL.  `MySql` is the client library with the
effects of the connection; `Sql` is the part of MySQL that is not in the program, what it escapes
and how it reads a text, and `Sql.Escapes` is what the service relies on.

Behind it is the table `users`.  MySQL decides by the table whether an `INSERT` meets a duplicate
key; whatever else goes wrong while a request is served is a `Fault`.

Three things are assumed of MySQL.  It stores a value as it was sent and compares values byte by
byte: the schema names no collation, so this is one for the server or the database to set.  It takes
statements one at a time.  And a statement that fails takes effect, if at all, before the client
hears of it.
-/

namespace MiniServer

/-- The functions of the MySQL client that the service calls. -/
structure MySql (m : Type → Type) where
  /-- `mysql_real_escape_string`. -/
  realEscapeString : Bytes → Bytes
  /-- `mysql_query`, compared to zero. -/
  query : Bytes → m Bool
  /-- `mysql_store_result` and the `mysql_num_rows` of its result, `none` for a null pointer. -/
  storeResult : m (Option ℕ)

namespace MySql

/-- The text of `registerUser`. -/
def insertText (username password : Bytes) : Bytes :=
  .ofString "INSERT INTO users(username, password) VALUES('" ++ username ++
    .ofString "', '" ++ password ++ .ofString "');"

/-- The text of `loginUser`. -/
def selectText (username password : Bytes) : Bytes :=
  .ofString "SELECT 1 FROM users WHERE username = '" ++ username ++
    .ofString "' AND password = '" ++ password ++ .ofString "' LIMIT 1;"

/-- The texts around the values hold no NUL. -/
theorem nul_not_mem_insertText {username password : Bytes} (husername : 0 ∉ username)
    (hpassword : 0 ∉ password) : 0 ∉ insertText username password := by
  have htexts : ∀ text ∈ ["INSERT INTO users(username, password) VALUES('", "', '", "');"],
      0 ∉ Bytes.ofString text := by decide +kernel
  simp only [List.forall_mem_cons] at htexts
  simp [insertText, htexts, husername, hpassword]

theorem nul_not_mem_selectText {username password : Bytes} (husername : 0 ∉ username)
    (hpassword : 0 ∉ password) : 0 ∉ selectText username password := by
  have htexts : ∀ text ∈ ["SELECT 1 FROM users WHERE username = '", "' AND password = '",
      "' LIMIT 1;"], 0 ∉ Bytes.ofString text := by decide +kernel
  simp only [List.forall_mem_cons] at htexts
  simp [selectText, htexts, husername, hpassword]

section Monadic

variable {m : Type → Type} [Monad m] (mysql : MySql m)

/-- `escape`; the buffer has room for every result. -/
def escape (value : Bytes) : Bytes := mysql.realEscapeString value

/-- `UserService::registerUser`. -/
def registerUser (username password : Bytes) : m Bool :=
  let sql := insertText (mysql.escape username) (mysql.escape password)
  mysql.query (Bytes.cstr sql)

/-- `UserService::loginUser`. -/
def loginUser (username password : Bytes) : m Bool := do
  let sql := selectText (mysql.escape username) (mysql.escape password)
  if ← mysql.query (Bytes.cstr sql) then
    match ← mysql.storeResult with
    | none => return false
    | some rows => return rows = 1
  else return false

/-- The service over this client. -/
def userService : UserService m := ⟨mysql.registerUser, mysql.loginUser⟩

end Monadic

end MySql

/-! ### The table -/

/-- The table `users`: pairs of `username`, which is unique, and `password`. -/
structure Users where
  rows : List (Bytes × Bytes)
  unique : (rows.map Prod.fst).Nodup

namespace Users

/-- The table after `CREATE TABLE`. -/
def empty : Users := ⟨[], List.nodup_nil⟩

/-- A username is stored. -/
def Stored (users : Users) (username : Bytes) : Prop := username ∈ users.rows.map Prod.fst

instance (users : Users) (username : Bytes) : Decidable (users.Stored username) :=
  inferInstanceAs (Decidable (_ ∈ _))

/-- The table with one more row, `none` for a duplicate key, which is one with the same bytes. -/
def insert (users : Users) (username password : Bytes) : Option Users :=
  if h : users.Stored username then none
  else some {
    rows := users.rows ++ [(username, password)]
    unique := by
      rw [List.map_append, List.map_singleton]
      exact users.unique.append (List.nodup_singleton username) (by
        rw [List.disjoint_singleton]
        exact h) }

theorem insert_eq_none_iff {users : Users} {username password : Bytes} :
    users.insert username password = none ↔ users.Stored username := by
  unfold insert
  split_ifs with h
  · exact iff_of_true rfl h
  · exact iff_of_false nofun h

theorem insert_eq_some {users users' : Users} {username password : Bytes}
    (h : users.insert username password = some users') :
    ¬ users.Stored username ∧ users'.rows = users.rows ++ [(username, password)] := by
  unfold insert at h
  split_ifs at h with hstored
  cases h
  exact ⟨hstored, rfl⟩

/-- How many rows the `SELECT` returns, with its `LIMIT 1`. -/
def select (users : Users) (username password : Bytes) : ℕ :=
  ((users.rows.filter (· = (username, password))).take 1).length

theorem select_eq_one_iff {users : Users} {username password : Bytes} :
    users.select username password = 1 ↔ (username, password) ∈ users.rows := by
  have hmem : (username, password) ∈ users.rows ↔
      users.rows.filter (· = (username, password)) ≠ [] := by
    rw [Ne, List.filter_eq_nil_iff]
    simp
  unfold select
  rw [hmem, List.length_take]
  cases users.rows.filter (· = (username, password)) with
  | nil => simp
  | cons row rows => simp

end Users

/-! ### MySQL -/

/-- The statements of the service. -/
inductive Statement where
  | insert (username password : Bytes)
  | select (username password : Bytes)
  deriving DecidableEq, Repr

/-- What MySQL escapes, and the statement a text is, `none` for a syntax error. -/
structure Sql where
  escape : Bytes → Bytes
  meaning : Bytes → Option Statement

/-- An escaped value stands for the value between quotes. -/
structure Sql.Escapes (sql : Sql) : Prop where
  nul : ∀ s, 0 ∉ sql.escape s
  insert : ∀ username password,
    sql.meaning (MySql.insertText (sql.escape username) (sql.escape password)) =
      some (.insert username password)
  select : ∀ username password,
    sql.meaning (MySql.selectText (sql.escape username) (sql.escape password)) =
      some (.select username password)

/-- What goes wrong while a request is served, besides a duplicate key. -/
inductive Fault where
  /-- `mysql_query` fails; MySQL may have executed the statement when the connection was lost. -/
  | query (executed : Bool)
  /-- `mysql_store_result` returns a null pointer. -/
  | result
  deriving DecidableEq, Repr

/-- A connection while a request is served. -/
structure MySqlSession where
  users : Users
  fault : Option Fault
  /-- The number of rows of the last `SELECT`. -/
  result : Option ℕ := none

/-- MySQL executes a statement: whether it succeeds, and the session after it. -/
def MySqlSession.execute (s : MySqlSession) : Statement → Bool × MySqlSession
  | .insert username password =>
    match s.users.insert username password with
    | some users => (true, { s with users })
    | none => (false, s)
  | .select username password =>
    (true, { s with result := some (s.users.select username password) })

/-- What the client hears of a statement, `none` for a syntax error. -/
def MySqlSession.answer (s : MySqlSession) : Option Statement → Bool × MySqlSession
  | none => (false, s)
  | some statement =>
    match s.fault with
    | some (.query executed) => (false, if executed then (s.execute statement).2 else s)
    | _ => s.execute statement

namespace Sql

variable (sql : Sql)

/-- `mysql_query` in a session. -/
def query (text : Bytes) : StateM MySqlSession Bool :=
  modifyGet fun s => s.answer (sql.meaning text)

/-- `mysql_store_result` in a session. -/
def storeResult : StateM MySqlSession (Option ℕ) :=
  modifyGet fun s => (if s.fault = some .result then none else s.result, s)

/-- The client library of a session. -/
def client : MySql (StateM MySqlSession) where
  realEscapeString := sql.escape
  query := sql.query
  storeResult := storeResult

/-- A request is routed: the status code and the table after it. -/
def serve (users : Users) (fault : Option Fault) (request : HttpRequest) : ℤ × Users :=
  let (routed, s) := Id.run ((RequestRouter.route sql.client.userService request).run
    { users, fault })
  (routed.statusCode, s.users)

end Sql

end MiniServer
