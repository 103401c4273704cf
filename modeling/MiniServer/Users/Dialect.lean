import Mathlib.Tactic.SplitIfs
import MiniServer.Users.Service

/-!
# Quoted literals

A MySQL to run the service with: `escape` puts a backslash in front of the bytes that mean something
between quotes, and `meaning` reads the two statements of the service, literal by literal.  What is
escaped is read back, whatever it contains (`escapes`).
-/

namespace MiniServer

namespace Dialect

/-- A byte in a quoted literal. -/
def escapeByte (b : UInt8) : Bytes :=
  if b = 0 then [92, 48]
  else if b = 10 then [92, 110]
  else if b = 13 then [92, 114]
  else if b = 26 then [92, 90]
  else if b = 34 ∨ b = 39 ∨ b = 92 then [92, b]
  else [b]

/-- The byte that a backslash and a byte stand for. -/
def unescapeByte (b : UInt8) : UInt8 :=
  if b = 48 then 0 else if b = 110 then 10 else if b = 114 then 13 else if b = 90 then 26 else b

/-- A value between quotes. -/
def escape (value : Bytes) : Bytes := value.flatMap escapeByte

/-- A literal up to its closing quote, and the text behind the quote. -/
def literal : Bytes → Option (Bytes × Bytes)
  | [] => none
  | [b] => if b = 39 then some ([], []) else none
  | b :: e :: s =>
    if b = 39 then some ([], e :: s)
    else if b = 92 then (literal s).map fun p => (unescapeByte e :: p.1, p.2)
    else (literal (e :: s)).map fun p => (b :: p.1, p.2)

/-- A fixed text is taken off. -/
def strip (text : String) (s : Bytes) : Option Bytes :=
  if Bytes.ofString text <+: s then some (s.drop (Bytes.ofString text).length) else none

/-- Two literals with fixed texts around them. -/
def twoLiterals (first second last : String) (s : Bytes) : Option (Bytes × Bytes) := do
  let s ← strip first s
  let (username, s) ← literal s
  let s ← strip second s
  let (password, s) ← literal s
  if s = .ofString last then some (username, password) else none

/-- The statement a text is. -/
def meaning (s : Bytes) : Option Statement :=
  if s.head? = some 73 then
    (twoLiterals "INSERT INTO users(username, password) VALUES('" ", '" ");" s).map fun p =>
      .insert p.1 p.2
  else
    (twoLiterals "SELECT 1 FROM users WHERE username = '" " AND password = '" " LIMIT 1;" s).map
      fun p => .select p.1 p.2

/-- This MySQL. -/
def sql : Sql := ⟨escape, meaning⟩

theorem literal_quote (s : Bytes) : literal (39 :: s) = some ([], s) := by
  cases s <;> rfl

theorem literal_backslash (e : UInt8) (s : Bytes) :
    literal (92 :: e :: s) = (literal s).map fun p => (unescapeByte e :: p.1, p.2) := rfl

theorem literal_plain {b : UInt8} (hquote : b ≠ 39) (hslash : b ≠ 92) {s : Bytes} (hs : s ≠ []) :
    literal (b :: s) = (literal s).map fun p => (b :: p.1, p.2) := by
  cases s with
  | nil => exact absurd rfl hs
  | cons e s => rw [literal, if_neg hquote, if_neg hslash]

/-- A byte is read back from what it was escaped to. -/
theorem literal_escapeByte (b : UInt8) {s : Bytes} (hs : s ≠ []) :
    literal (escapeByte b ++ s) = (literal s).map fun p => (b :: p.1, p.2) := by
  unfold escapeByte
  split_ifs with h0 h10 h13 h26 hquote
  · subst h0
    exact literal_backslash 48 s
  · subst h10
    exact literal_backslash 110 s
  · subst h13
    exact literal_backslash 114 s
  · subst h26
    exact literal_backslash 90 s
  · rcases hquote with rfl | rfl | rfl
    · exact literal_backslash 34 s
    · exact literal_backslash 39 s
    · exact literal_backslash 92 s
  · rw [not_or, not_or] at hquote
    exact literal_plain hquote.2.1 hquote.2.2 hs

theorem literal_escape (value rest : Bytes) :
    literal (escape value ++ 39 :: rest) = some (value, rest) := by
  induction value with
  | nil => exact literal_quote rest
  | cons b value ih =>
    have hcons : escape (b :: value) ++ 39 :: rest =
        escapeByte b ++ (escape value ++ 39 :: rest) := by simp [escape]
    rw [hcons, literal_escapeByte b (by simp), ih]
    rfl

theorem strip_append (text : String) (s : Bytes) : strip text (.ofString text ++ s) = some s := by
  unfold strip
  rw [if_pos (List.prefix_append _ _), List.drop_left]

theorem twoLiterals_eq (first second last : String) (username password : Bytes) :
    twoLiterals first second last (Bytes.ofString first ++ (escape username ++ 39 ::
      (Bytes.ofString second ++ (escape password ++ 39 :: Bytes.ofString last)))) =
        some (username, password) := by
  unfold twoLiterals
  simp only [strip_append, literal_escape, Option.bind_eq_bind, Option.bind_some, if_true]

theorem nul_not_mem_escapeByte (b : UInt8) : 0 ∉ escapeByte b := by
  unfold escapeByte
  split_ifs with h0
  · decide
  · decide
  · decide
  · decide
  · simp [eq_comm, h0]
  · simp [eq_comm, h0]

/-- No value ends its literal before its quote. -/
theorem escapes : sql.Escapes where
  nul s h := by
    obtain ⟨b, -, hb⟩ := List.mem_flatMap.1 h
    exact nul_not_mem_escapeByte b hb
  insert username password := by
    have htext : MySql.insertText (escape username) (escape password) =
        Bytes.ofString "INSERT INTO users(username, password) VALUES('" ++ (escape username ++ 39 ::
          (Bytes.ofString ", '" ++ (escape password ++ 39 :: Bytes.ofString ");"))) := by
      have hmid : Bytes.ofString "', '" = 39 :: Bytes.ofString ", '" := rfl
      have hlast : Bytes.ofString "');" = 39 :: Bytes.ofString ");" := rfl
      simp [MySql.insertText, hmid, hlast]
    have hhead : (Bytes.ofString "INSERT INTO users(username, password) VALUES('").head? =
        some 73 := rfl
    show meaning (MySql.insertText (escape username) (escape password)) = _
    rw [htext, meaning, List.head?_append, hhead, if_pos Option.some_or, twoLiterals_eq]
    rfl
  select username password := by
    have htext : MySql.selectText (escape username) (escape password) =
        Bytes.ofString "SELECT 1 FROM users WHERE username = '" ++ (escape username ++ 39 ::
          (Bytes.ofString " AND password = '" ++
            (escape password ++ 39 :: Bytes.ofString " LIMIT 1;"))) := by
      have hmid : Bytes.ofString "' AND password = '" = 39 :: Bytes.ofString " AND password = '" :=
        rfl
      have hlast : Bytes.ofString "' LIMIT 1;" = 39 :: Bytes.ofString " LIMIT 1;" := rfl
      simp [MySql.selectText, hmid, hlast]
    have hhead : (Bytes.ofString "SELECT 1 FROM users WHERE username = '").head? = some 83 := rfl
    show meaning (MySql.selectText (escape username) (escape password)) = _
    rw [htext, meaning, List.head?_append, hhead, Option.some_or, if_neg (by decide),
      twoLiterals_eq]
    rfl

end Dialect

end MiniServer
