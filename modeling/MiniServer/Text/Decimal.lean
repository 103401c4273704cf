import Mathlib.Data.List.Basic
import MiniServer.Text.Bytes

/-!
# Decimal numbers in a byte string

`Bytes.ofNat` prints and `Bytes.value` reads: the printed number is a run of digits with that value
(`Bytes.Decimal.ofNat`), and a reader that takes digits as long as there are any stops at its end
(`Bytes.Decimal.takeWhile_append`), also in a text that was lower-cased.
-/

namespace MiniServer

namespace Bytes

/-- `digits` is a decimal numeral of `n`; zeros may stand in front. -/
structure Decimal (digits : Bytes) (n : ℕ) : Prop where
  nonempty : digits ≠ []
  digit : ∀ b ∈ digits, isDigit b
  value_eq : value digits = n

/-! ### Printing -/

/-- A digit and its byte have the same number. -/
theorem toNat_ofNat_of_isDigit {c : Char} (h : c.isDigit) :
    (UInt8.ofNat c.toNat).toNat = c.toNat := by
  have hle : c.toNat ≤ 57 := (Char.isDigit_iff_toNat.1 h).2
  exact UInt8.toNat_ofNat_of_lt' (show c.toNat < 256 by omega)

theorem isDigit_of_mem_ofNat {n : ℕ} {b : UInt8} (h : b ∈ ofNat n) : isDigit b := by
  obtain ⟨c, hc, rfl⟩ := List.mem_map.1 h
  have hdigit := Nat.isDigit_of_mem_toDigits (by decide) (by decide) hc
  obtain ⟨hge, hle⟩ := Char.isDigit_iff_toNat.1 hdigit
  unfold isDigit
  rw [decide_eq_true_eq, UInt8.le_iff_toNat_le, UInt8.le_iff_toNat_le,
    toNat_ofNat_of_isDigit hdigit]
  exact ⟨hge, hle⟩

theorem value_ofNat (n : ℕ) : value (ofNat n) = n := by
  have hfold : ∀ (cs : List Char) (m : ℕ), (∀ c ∈ cs, c.isDigit) →
      (cs.map fun c => UInt8.ofNat c.toNat).foldl (fun m b => 10 * m + (b.toNat - 48)) m =
        Nat.ofDigitChars 10 cs m := by
    intro cs
    induction cs with
    | nil => exact fun m _ => Nat.ofDigitChars_nil.symm
    | cons c cs ih =>
      intro m hcs
      rw [List.map_cons, List.foldl_cons, Nat.ofDigitChars_cons,
        toNat_ofNat_of_isDigit (hcs c List.mem_cons_self)]
      exact ih _ fun c' hc' => hcs c' (List.mem_cons_of_mem c hc')
  unfold value ofNat
  rw [hfold _ _ fun c hc => Nat.isDigit_of_mem_toDigits (by decide) (by decide) hc]
  exact Nat.ofDigitChars_ten_toDigits

/-- A printed number reads back. -/
theorem Decimal.ofNat (n : ℕ) : Decimal (ofNat n) n where
  nonempty := by
    unfold Bytes.ofNat
    rw [Ne, List.map_eq_nil_iff]
    exact Nat.toDigits_ne_nil
  digit _ := isDigit_of_mem_ofNat
  value_eq := value_ofNat n

/-- A byte that is not a digit is not in a numeral. -/
theorem Decimal.not_mem {digits : Bytes} {n : ℕ} (h : Decimal digits n) {b : UInt8}
    (hb : isDigit b = false) : b ∉ digits := by
  intro hmem
  rw [h.digit b hmem] at hb
  cases hb

/-! ### Reading -/

theorem Decimal.takeWhile_append {digits : Bytes} {n : ℕ} (h : Decimal digits n) {b : UInt8}
    (hb : isDigit b = false) (t : Bytes) : (digits ++ b :: t).takeWhile isDigit = digits := by
  rw [List.takeWhile_append_of_pos h.digit, List.takeWhile_cons, hb]
  simp

/-- A capital letter in lower case. -/
theorem toNat_add_32 {b : UInt8} (h : 65 ≤ b ∧ b ≤ 90) :
    65 ≤ b.toNat ∧ (b + 32).toNat = b.toNat + 32 := by
  obtain ⟨hge, hle⟩ := h
  rw [UInt8.le_iff_toNat_le] at hge hle
  have hge : 65 ≤ b.toNat := hge
  have hle : b.toNat ≤ 90 := hle
  refine ⟨hge, ?_⟩
  rw [UInt8.toNat_add]
  exact Nat.mod_eq_of_lt (show b.toNat + 32 < 256 by omega)

theorem isDigit_toLower (b : UInt8) : isDigit (toLower b) = isDigit b := by
  unfold isDigit toLower
  split_ifs with h
  · obtain ⟨hge, hadd⟩ := toNat_add_32 h
    have h9 : ∀ c : UInt8, c ≤ 57 ↔ c.toNat ≤ 57 := fun c => UInt8.le_iff_toNat_le
    rw [decide_eq_decide, h9, h9, hadd]
    constructor <;> rintro ⟨-, h57⟩ <;> omega
  · rfl

/-- Lower-casing keeps blanks and tabs, and makes none. -/
theorem isBlank_toLower (b : UInt8) : (toLower b = 32 ∨ toLower b = 9) ↔ (b = 32 ∨ b = 9) := by
  unfold toLower
  split_ifs with h
  · obtain ⟨hge, hadd⟩ := toNat_add_32 h
    have hnot : ∀ c : UInt8, 65 ≤ c.toNat → ¬ (c = 32 ∨ c = 9) := by
      rintro c hc (rfl | rfl)
      · exact absurd hc (by decide)
      · exact absurd hc (by decide)
    exact iff_of_false (hnot _ (by omega)) (hnot b hge)
  · rfl

/-- Lower-casing keeps digits. -/
theorem toLower_of_isDigit {b : UInt8} (h : isDigit b) : toLower b = b := by
  unfold isDigit at h
  obtain ⟨-, hle⟩ := of_decide_eq_true h
  refine if_neg fun hupper => ?_
  exact absurd (UInt8.le_trans hupper.1 hle) (by decide)

theorem Decimal.map_toLower {digits : Bytes} {n : ℕ} (h : Decimal digits n) :
    digits.map toLower = digits := by
  rw [List.map_congr_left fun b hb => toLower_of_isDigit (h.digit b hb), List.map_id']

end Bytes

end MiniServer
