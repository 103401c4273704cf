import Mathlib.Data.List.Basic

/-!
# A lexer with quoted literals

A text is cut into words, single symbols and quoted literals.  In a literal, an escape sequence
stands for other symbols, and the quote twice stands for one.  The lexer takes one symbol after the
other, so that a text in two parts is read part by part (`run_append`).

A table of escapes is *faithful* when what it writes for a symbol is read back as that symbol inside
a literal; then a whole value is (`Faithful.run_flatMap`), whatever stands in front of it or
behind it.
-/

namespace MiniServer

namespace Lexer

/-- What the symbols of a language mean; `escaped` is what an escape sequence stands for. -/
structure Rules (α : Type*) where
  isBlank : α → Bool
  isWord : α → Bool
  isQuote : α → Bool
  escape : α
  escaped : α → List α

/-- A piece of a text; a literal is what stands between its quotes. -/
inductive Token (α : Type*) where
  | word (name : List α)
  | symbol (a : α)
  | literal (value : List α)
  deriving DecidableEq, Repr

/-- What is being read: nothing yet, a word, a literal, an escape sequence in it, or what follows a
quote in it, which ends it unless it is the same quote again. -/
inductive Mode (α : Type*) where
  | start
  | word (name : List α)
  | literal (quote : α) (value : List α)
  | escape (quote : α) (value : List α)
  | closing (quote : α) (value : List α)
  deriving DecidableEq, Repr

/-- The tokens that are read, the latest one first, and what is being read. -/
structure State (α : Type*) where
  tokens : List (Token α) := []
  mode : Mode α := .start
  deriving DecidableEq, Repr

variable {α : Type*} [DecidableEq α] (rules : Rules α)

/-- A symbol that starts something new. -/
def begin (tokens : List (Token α)) (a : α) : State α :=
  if rules.isBlank a then ⟨tokens, .start⟩
  else if rules.isWord a then ⟨tokens, .word [a]⟩
  else if rules.isQuote a then ⟨tokens, .literal a []⟩
  else ⟨.symbol a :: tokens, .start⟩

/-- One symbol is read. -/
def step : State α → α → State α
  | ⟨tokens, .start⟩, a => begin rules tokens a
  | ⟨tokens, .word name⟩, a =>
    if rules.isWord a then ⟨tokens, .word (name ++ [a])⟩
    else begin rules (.word name :: tokens) a
  | ⟨tokens, .literal quote value⟩, a =>
    if a = rules.escape then ⟨tokens, .escape quote value⟩
    else if a = quote then ⟨tokens, .closing quote value⟩
    else ⟨tokens, .literal quote (value ++ [a])⟩
  | ⟨tokens, .escape quote value⟩, a => ⟨tokens, .literal quote (value ++ rules.escaped a)⟩
  | ⟨tokens, .closing quote value⟩, a =>
    if a = quote then ⟨tokens, .literal quote (value ++ [a])⟩
    else begin rules (.literal value :: tokens) a

/-- A text is read. -/
def run (s : State α) (text : List α) : State α := text.foldl (step rules) s

/-- The tokens at the end of a text, `none` inside a literal. -/
def finish : State α → Option (List (Token α))
  | ⟨tokens, .start⟩ => some tokens.reverse
  | ⟨tokens, .word name⟩ => some (.word name :: tokens).reverse
  | ⟨tokens, .closing _ value⟩ => some (.literal value :: tokens).reverse
  | ⟨_, .literal _ _⟩ => none
  | ⟨_, .escape _ _⟩ => none

/-- The tokens of a text. -/
def tokens (text : List α) : Option (List (Token α)) := finish (run rules {} text)

/-! ### Parts of a text -/

@[simp] theorem run_nil (s : State α) : run rules s [] = s := rfl

theorem run_cons (s : State α) (a : α) (t : List α) :
    run rules s (a :: t) = run rules (step rules s a) t := rfl

theorem run_append (s : State α) (t u : List α) :
    run rules s (t ++ u) = run rules (run rules s t) u :=
  List.foldl_append

/-- What `escapeOne` writes for a symbol is read back inside a literal. -/
def Faithful (quote : α) (escapeOne : α → List α) : Prop :=
  ∀ tokens value a, run rules ⟨tokens, .literal quote value⟩ (escapeOne a) =
    ⟨tokens, .literal quote (value ++ [a])⟩

variable {rules} {quote : α} {escapeOne : α → List α}

/-- A symbol may stand for itself unless it is the escape sign or the quote. -/
theorem run_plain {a : α} (hescape : a ≠ rules.escape) (hquote : a ≠ quote)
    (tokens : List (Token α)) (value : List α) :
    run rules ⟨tokens, .literal quote value⟩ [a] = ⟨tokens, .literal quote (value ++ [a])⟩ := by
  rw [run_cons, step, if_neg hescape, if_neg hquote, run_nil]

theorem run_escaped (a : α) (tokens : List (Token α)) (value : List α) :
    run rules ⟨tokens, .literal quote value⟩ [rules.escape, a] =
      ⟨tokens, .literal quote (value ++ rules.escaped a)⟩ := by
  rw [run_cons, step, if_pos rfl, run_cons, step, run_nil]

/-- A table that escapes the escape sign and the quote, and whose escapes mean what they stand
for. -/
theorem Faithful.of_table
    (h : ∀ a, (escapeOne a = [a] ∧ a ≠ rules.escape ∧ a ≠ quote) ∨
      ∃ b, escapeOne a = [rules.escape, b] ∧ rules.escaped b = [a]) :
    Faithful rules quote escapeOne := by
  intro tokens value a
  rcases h a with ⟨heq, hescape, hquote⟩ | ⟨b, heq, hb⟩
  · rw [heq, run_plain hescape hquote]
  · rw [heq, run_escaped, hb]

/-- **An escaped value is read back**: the lexer is in the same literal behind it. -/
theorem Faithful.run_flatMap (h : Faithful rules quote escapeOne) (tokens : List (Token α))
    (value rest : List α) :
    run rules ⟨tokens, .literal quote value⟩ (rest.flatMap escapeOne) =
      ⟨tokens, .literal quote (value ++ rest)⟩ := by
  induction rest generalizing value with
  | nil => rw [List.flatMap_nil, run_nil, List.append_nil]
  | cons a rest ih =>
    rw [List.flatMap_cons, run_append, h, ih, List.append_assoc]
    rfl

end Lexer

end MiniServer
