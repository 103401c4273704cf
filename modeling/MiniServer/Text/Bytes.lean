import Mathlib.Algebra.Group.Nat.Defs
import Mathlib.Data.List.TakeWhile
import MiniServer.Text.Search

/-!
# Byte strings

`std::string` is a list of bytes.  The character classes and the conversions are those of the
"C" locale, which the program never leaves.
-/

namespace MiniServer

/-- A `std::string`. -/
abbrev Bytes := List UInt8

namespace Bytes

/-- The bytes of a literal. -/
def ofString (s : String) : Bytes := s.toList.map fun c => UInt8.ofNat c.toNat

/-- `"\r\n"`. -/
def crlf : Bytes := [13, 10]

/-- `std::isdigit`. -/
def isDigit (b : UInt8) : Bool := decide (48 ≤ b ∧ b ≤ 57)

/-- `std::isspace`. -/
def isSpace (b : UInt8) : Bool := decide (b = 32 ∨ 9 ≤ b ∧ b ≤ 13)

/-- `std::tolower`. -/
def toLower (b : UInt8) : UInt8 := if 65 ≤ b ∧ b ≤ 90 then b + 32 else b

/-- The number a run of decimal digits denotes. -/
def value (digits : Bytes) : ℕ := digits.foldl (fun n b => 10 * n + (b.toNat - 48)) 0

/-- `std::stoul` in base 10 on a run of digits, `none` for `std::out_of_range`. -/
def stoul (digits : Bytes) : Option ℕ :=
  if value digits < 2 ^ 64 then some (value digits) else none

/-- `std::to_string` of an unsigned number. -/
def ofNat (n : ℕ) : Bytes := (Nat.toDigits 10 n).map fun c => UInt8.ofNat c.toNat

/-- `std::to_string` of an `int`. -/
def ofInt : ℤ → Bytes
  | .ofNat n => ofNat n
  | .negSucc n => 45 :: ofNat (n + 1)

/-- The leading blanks and tabs skipped. -/
def skipBlanks (s : Bytes) : Bytes := s.dropWhile fun b => b = 32 ∨ b = 9

/-- The part of a string that a C interface sees. -/
def cstr (s : Bytes) : Bytes := s.takeWhile (· ≠ 0)

/-- A C interface sees all of a string without NUL. -/
theorem cstr_eq_self_iff {s : Bytes} : cstr s = s ↔ 0 ∉ s := by
  unfold cstr
  rw [List.takeWhile_eq_self_iff]
  constructor
  · intro h hmem
    exact absurd (h 0 hmem) (by decide)
  · intro h b hb
    rw [decide_eq_true_eq]
    rintro rfl
    exact h hb

end Bytes

end MiniServer
