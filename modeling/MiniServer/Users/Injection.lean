import MiniServer.Text.Lexer
import MiniServer.Users.Dialect

/-!
# What a user can put into a statement

`mysqlRules` are the symbols of MySQL, with the escape sequences of a quoted literal; comments and
names in backquotes are left out.  Read with them, the two statements of the service are always the
same tokens, but for two literals, and these are what the user has sent
(`MySql.statements_fixed`).
-/

namespace MiniServer

open Lexer (Token)

namespace MySql

/-! ### The buffer of `escape` -/

/-- `escape` with its buffer of `2 * size + 1` bytes, into which the client writes its result and a
NUL; `none` when it writes behind the end of the buffer. -/
def escapeInBuffer (realEscapeString : Bytes → Bytes) (value : Bytes) : Option Bytes :=
  let buffer : Bytes := List.replicate (value.length * 2 + 1) 0
  let written := realEscapeString value ++ [0]
  if written.length ≤ buffer.length then
    -- `resize` to the length that the client returns
    some ((written ++ buffer.drop written.length).take (realEscapeString value).length)
  else none

theorem length_escapeByte_le (b : UInt8) : (Dialect.escapeByte b).length ≤ 2 := by
  unfold Dialect.escapeByte
  split_ifs <;> simp

theorem length_escape_le (value : Bytes) : (Dialect.escape value).length ≤ value.length * 2 := by
  unfold Dialect.escape
  induction value with
  | nil => exact Nat.le_refl 0
  | cons b value ih =>
    have hb := length_escapeByte_le b
    rw [List.flatMap_cons, List.length_append, List.length_cons]
    omega

/-- The buffer has room for every result and its NUL. -/
theorem escapeInBuffer_eq (value : Bytes) :
    escapeInBuffer Dialect.escape value = some (Dialect.escape value) := by
  have hle := length_escape_le value
  unfold escapeInBuffer
  dsimp only
  rw [if_pos (by simp; omega), List.append_assoc, List.take_left]

/-! ### Tokens -/

/-- What a backslash and a byte stand for; `\%` and `\_` keep their backslash. -/
def escaped (b : UInt8) : Bytes :=
  if b = 48 then [0]
  else if b = 98 then [8]
  else if b = 110 then [10]
  else if b = 114 then [13]
  else if b = 116 then [9]
  else if b = 90 then [26]
  else if b = 37 ∨ b = 95 then [92, b]
  else [b]

/-- The bytes of names, keywords and numbers. -/
def isWord (b : UInt8) : Bool :=
  decide (48 ≤ b ∧ b ≤ 57 ∨ 65 ≤ b ∧ b ≤ 90 ∨ 97 ≤ b ∧ b ≤ 122 ∨ b = 36 ∨ b = 95 ∨ 128 ≤ b)

/-- The symbols of MySQL in the default mode: a literal stands between single or double quotes. -/
def mysqlRules : Lexer.Rules UInt8 where
  isBlank := Bytes.isSpace
  isWord := isWord
  isQuote b := b = 39 || b = 34
  escape := 92
  escaped := escaped

/-- A keyword, a name or a number. -/
def word (name : String) : Token UInt8 := .word (Bytes.ofString name)

/-- The tokens of `registerUser`. -/
def insertTokens (username password : Bytes) : List (Token UInt8) :=
  [word "INSERT", word "INTO", word "users", .symbol 40, word "username", .symbol 44,
    word "password", .symbol 41, word "VALUES", .symbol 40, .literal username, .symbol 44,
    .literal password, .symbol 41, .symbol 59]

/-- The tokens of `loginUser`. -/
def selectTokens (username password : Bytes) : List (Token UInt8) :=
  [word "SELECT", word "1", word "FROM", word "users", word "WHERE", word "username", .symbol 61,
    .literal username, word "AND", word "password", .symbol 61, .literal password, word "LIMIT",
    word "1", .symbol 59]

/-- Every byte is read back from what it is escaped to. -/
theorem escapeByte_faithful : Lexer.Faithful mysqlRules 39 Dialect.escapeByte := by
  refine .of_table fun b => ?_
  unfold Dialect.escapeByte
  split_ifs with h0 h10 h13 h26 hquote
  · exact .inr ⟨48, rfl, by rw [h0]; rfl⟩
  · exact .inr ⟨110, rfl, by rw [h10]; rfl⟩
  · exact .inr ⟨114, rfl, by rw [h13]; rfl⟩
  · exact .inr ⟨90, rfl, by rw [h26]; rfl⟩
  · refine .inr ⟨b, rfl, ?_⟩
    rcases hquote with rfl | rfl | rfl <;> rfl
  · rw [not_or, not_or] at hquote
    exact .inl ⟨rfl, hquote.2.2, hquote.2.1⟩

/-- A text with two escaped values: behind each of them the lexer is in its literal. -/
theorem run_twoLiterals {head middle last username password : Bytes}
    {tokens tokens' : List (Token UInt8)}
    (hhead : Lexer.run mysqlRules {} head = ⟨tokens, .literal 39 []⟩)
    (hmiddle : Lexer.run mysqlRules ⟨tokens, .literal 39 username⟩ middle =
      ⟨tokens', .literal 39 []⟩) :
    Lexer.run mysqlRules {}
        (head ++ Dialect.escape username ++ middle ++ Dialect.escape password ++ last) =
      Lexer.run mysqlRules ⟨tokens', .literal 39 password⟩ last := by
  unfold Dialect.escape
  rw [Lexer.run_append, Lexer.run_append, Lexer.run_append, Lexer.run_append, hhead,
    escapeByte_faithful.run_flatMap, List.nil_append, hmiddle, escapeByte_faithful.run_flatMap,
    List.nil_append]

theorem tokens_insertText (username password : Bytes) :
    Lexer.tokens mysqlRules (insertText (Dialect.escape username) (Dialect.escape password)) =
      some (insertTokens username password) := by
  have hhead : Lexer.run mysqlRules {}
      (Bytes.ofString "INSERT INTO users(username, password) VALUES('") =
        ⟨((insertTokens username password).take 10).reverse, .literal 39 []⟩ := rfl
  have hmiddle : Lexer.run mysqlRules
      ⟨((insertTokens username password).take 10).reverse, .literal 39 username⟩
      (Bytes.ofString "', '") =
        ⟨((insertTokens username password).take 12).reverse, .literal 39 []⟩ := rfl
  have hlast : Lexer.finish (Lexer.run mysqlRules
      ⟨((insertTokens username password).take 12).reverse, .literal 39 password⟩
      (Bytes.ofString "');")) = some (insertTokens username password) := rfl
  rw [Lexer.tokens, insertText, run_twoLiterals hhead hmiddle, hlast]

theorem tokens_selectText (username password : Bytes) :
    Lexer.tokens mysqlRules (selectText (Dialect.escape username) (Dialect.escape password)) =
      some (selectTokens username password) := by
  have hhead : Lexer.run mysqlRules {} (Bytes.ofString "SELECT 1 FROM users WHERE username = '") =
        ⟨((selectTokens username password).take 7).reverse, .literal 39 []⟩ := rfl
  have hmiddle : Lexer.run mysqlRules
      ⟨((selectTokens username password).take 7).reverse, .literal 39 username⟩
      (Bytes.ofString "' AND password = '") =
        ⟨((selectTokens username password).take 11).reverse, .literal 39 []⟩ := rfl
  have hlast : Lexer.finish (Lexer.run mysqlRules
      ⟨((selectTokens username password).take 11).reverse, .literal 39 password⟩
      (Bytes.ofString "' LIMIT 1;")) = some (selectTokens username password) := rfl
  rw [Lexer.tokens, selectText, run_twoLiterals hhead hmiddle, hlast]

/-! ### The service -/

/-- A client that keeps the texts it is sent, with the answers of the server. -/
def recorder (ok : Bytes → Bool) (rows : Option ℕ) : MySql (StateM (List Bytes)) where
  realEscapeString := Dialect.escape
  query text := do
    modify (· ++ [text])
    return ok text
  storeResult := return rows

/-- The texts that a program sends. -/
def sent {α : Type} (program : StateM (List Bytes) α) : List Bytes := (program.run []).2

theorem sent_registerUser (ok : Bytes → Bool) (rows : Option ℕ) (username password : Bytes) :
    sent ((recorder ok rows).registerUser username password) =
      [Bytes.cstr (insertText (Dialect.escape username) (Dialect.escape password))] := rfl

theorem sent_loginUser (ok : Bytes → Bool) (rows : Option ℕ) (username password : Bytes) :
    sent ((recorder ok rows).loginUser username password) =
      [Bytes.cstr (selectText (Dialect.escape username) (Dialect.escape password))] := by
  show _ = [Bytes.cstr (selectText ((recorder ok rows).escape username)
    ((recorder ok rows).escape password))]
  unfold sent loginUser
  dsimp only
  generalize Bytes.cstr (selectText ((recorder ok rows).escape username)
    ((recorder ok rows).escape password)) = text
  have hquery : (recorder ok rows).query text = (do
      modify (· ++ [text])
      return ok text) := rfl
  rw [hquery]
  cases ok text with
  | false => rfl
  | true => cases rows <;> rfl

/-- **No SQL injection.**  Each function sends one text, without NUL and not truncated, whose tokens
do not depend on the user but for the two literals, which are the username and the password; and the
escaped values fit their buffers. -/
theorem statements_fixed (ok : Bytes → Bool) (rows : Option ℕ) (username password : Bytes) :
    (∃ text, sent ((recorder ok rows).registerUser username password) = [text] ∧ 0 ∉ text ∧
        text = insertText (Dialect.escape username) (Dialect.escape password) ∧
        Lexer.tokens mysqlRules text = some (insertTokens username password)) ∧
      (∃ text, sent ((recorder ok rows).loginUser username password) = [text] ∧ 0 ∉ text ∧
        text = selectText (Dialect.escape username) (Dialect.escape password) ∧
        Lexer.tokens mysqlRules text = some (selectTokens username password)) ∧
      ∀ value, escapeInBuffer Dialect.escape value = some ((recorder ok rows).escape value) ∧
        (Dialect.escape value).length + 1 ≤ 2 * value.length + 1 := by
  have husername : 0 ∉ Dialect.escape username := Dialect.escapes.nul username
  have hpassword : 0 ∉ Dialect.escape password := Dialect.escapes.nul password
  have hinsert := nul_not_mem_insertText husername hpassword
  have hselect := nul_not_mem_selectText husername hpassword
  refine ⟨⟨_, ?_, hinsert, rfl, tokens_insertText username password⟩,
    ⟨_, ?_, hselect, rfl, tokens_selectText username password⟩, fun value => ⟨?_, ?_⟩⟩
  · rw [sent_registerUser, Bytes.cstr_eq_self_iff.2 hinsert]
  · rw [sent_loginUser, Bytes.cstr_eq_self_iff.2 hselect]
  · exact escapeInBuffer_eq value
  · have hle := length_escape_le value
    omega

end MySql

end MiniServer
