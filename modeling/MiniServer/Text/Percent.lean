import Mathlib.Data.List.Basic

/-!
# Percent-encoded text

`decode` is the reference decoder: it reads from left to right, and only a `%` in front of two
hexadecimal digits is an escape.  `Encodes` relates a text to the ways in which it can be written;
which bytes may stand for themselves is a parameter.

## Main results

* `Percent.Encodes.decode_eq` : decoding undoes encoding.
* `Percent.Encodes.eq_iff_of_literal` : a text of literal bytes is written in one way, and no other
  text is written like it.
-/

namespace MiniServer

namespace Percent

/-- The value of a hexadecimal digit. -/
def hexDigit (b : UInt8) : Option ℕ :=
  if 48 ≤ b ∧ b ≤ 57 then some (b.toNat - 48)
  else if 97 ≤ b ∧ b ≤ 102 then some (b.toNat - 87)
  else if 65 ≤ b ∧ b ≤ 70 then some (b.toNat - 55)
  else none

/-- The byte that two hexadecimal digits denote. -/
def hexPair (h l : UInt8) : Option UInt8 := do
  let x ← hexDigit h
  let y ← hexDigit l
  return UInt8.ofNat (16 * x + y)

/-- The text that an encoded text denotes.  A `%` without two hexadecimal digits behind it stands
for itself. -/
def decode : List UInt8 → List UInt8
  | b :: h :: l :: s =>
    if b = 37 then
      match hexPair h l with
      | some c => c :: decode s
      | none => b :: decode (h :: l :: s)
    else if b = 43 then 32 :: decode (h :: l :: s)
    else b :: decode (h :: l :: s)
  | b :: s => (if b = 43 then 32 else b) :: decode s
  | [] => []

/-- Every `%` with two bytes behind it stands in front of two hexadecimal digits. -/
def WellEscaped (s : List UInt8) : Prop :=
  ∀ before h l after, s = before ++ 37 :: h :: l :: after → (hexPair h l).isSome

/-- The ways to write a text: a literal byte is written as it is, a blank also as `+`. -/
inductive Encodes (literal : UInt8 → Bool) : List UInt8 → List UInt8 → Prop
  | nil : Encodes literal [] []
  | literal {b : UInt8} {v e : List UInt8} : literal b = true → Encodes literal v e →
      Encodes literal (b :: v) (b :: e)
  | plus {v e : List UInt8} : literal 32 = false → Encodes literal v e →
      Encodes literal (32 :: v) (43 :: e)
  | escape {b h l : UInt8} {v e : List UInt8} : literal b = false → hexPair h l = some b →
      Encodes literal v e → Encodes literal (b :: v) (37 :: h :: l :: e)

/-! ### Decoding -/

theorem hexPair_eq_some_iff {h l b : UInt8} : hexPair h l = some b ↔
    ∃ x y, hexDigit h = some x ∧ hexDigit l = some y ∧ UInt8.ofNat (16 * x + y) = b := by
  unfold hexPair
  cases hexDigit h with
  | none => simp
  | some x => cases hexDigit l <;> simp

theorem hexPair_eq_none_iff {h l : UInt8} :
    hexPair h l = none ↔ hexDigit h = none ∨ hexDigit l = none := by
  unfold hexPair
  cases hexDigit h with
  | none => simp
  | some x => cases hexDigit l <;> simp

/-- A byte that is no digit is not in an escape. -/
theorem hexPair_ne {h l b : UInt8} (hpair : hexPair h l = some b) {c : UInt8}
    (hc : hexDigit c = none) : h ≠ c ∧ l ≠ c := by
  obtain ⟨x, y, hh, hl, -⟩ := hexPair_eq_some_iff.1 hpair
  constructor
  · rintro rfl
    rw [hc] at hh
    cases hh
  · rintro rfl
    rw [hc] at hl
    cases hl

theorem decode_escape {h l b : UInt8} (hpair : hexPair h l = some b) (s : List UInt8) :
    decode (37 :: h :: l :: s) = b :: decode s := by
  rw [decode, if_pos rfl, hpair]

theorem decode_malformed {h l : UInt8} (hpair : hexPair h l = none) (s : List UInt8) :
    decode (37 :: h :: l :: s) = 37 :: decode (h :: l :: s) := by
  rw [decode, if_pos rfl, hpair]

theorem decode_cons {b : UInt8} (hb : b ≠ 37) (s : List UInt8) :
    decode (b :: s) = (if b = 43 then 32 else b) :: decode s := by
  match s with
  | [] => rfl
  | [_] => rfl
  | h :: l :: s =>
    rw [decode, if_neg hb]
    split_ifs <;> rfl

/-- Near the end nothing is an escape. -/
theorem decode_cons_of_length {s : List UInt8} (h : s.length < 2) (b : UInt8) :
    decode (b :: s) = (if b = 43 then 32 else b) :: decode s := by
  match s with
  | [] => rfl
  | [_] => rfl
  | _ :: _ :: _ => exact absurd h (by simp)

/-! ### Where the escapes are -/

namespace WellEscaped

theorem nil : WellEscaped [] := by
  intro before h l after heq
  simp at heq

theorem cons {b : UInt8} (hb : b ≠ 37) {s : List UInt8} : WellEscaped (b :: s) ↔ WellEscaped s := by
  constructor
  · intro hs before h l after heq
    exact hs (b :: before) h l after (by rw [heq]; rfl)
  · intro hs before h l after heq
    cases before with
    | nil => exact absurd (List.cons.inj heq).1 hb
    | cons c before => exact hs before h l after (List.cons.inj heq).2

theorem of_length {s : List UInt8} (hs : s.length < 3) : WellEscaped s := by
  rintro before h l after rfl
  simp at hs
  omega

/-- The digits of an escape do not start another one. -/
theorem escape {h l b : UInt8} (hpair : hexPair h l = some b) {s : List UInt8} :
    WellEscaped (37 :: h :: l :: s) ↔ WellEscaped s := by
  obtain ⟨hh, hl⟩ := hexPair_ne hpair (c := 37) rfl
  rw [← cons hl (s := s), ← cons hh (s := l :: s)]
  constructor
  · intro hs before h' l' after heq
    exact hs (37 :: before) h' l' after (by rw [heq]; rfl)
  · intro hs before h' l' after heq
    cases before with
    | nil =>
      cases heq
      rw [hpair]
      rfl
    | cons c before => exact hs before h' l' after (List.cons.inj heq).2

theorem not_malformed {h l : UInt8} (hpair : hexPair h l = none) (s : List UInt8) :
    ¬ WellEscaped (37 :: h :: l :: s) := by
  intro hs
  have hsome := hs [] h l s rfl
  rw [hpair] at hsome
  cases hsome

end WellEscaped

/-! ### Encoded texts -/

namespace Encodes

variable {literal : UInt8 → Bool} {v e : List UInt8}

theorem ne_of_literal {a b : UInt8} (ha : literal a = true) (hb : literal b = false) : a ≠ b := by
  rintro rfl
  rw [ha] at hb
  cases hb

/-- A text of literal bytes stands for itself. -/
theorem self (hv : ∀ a ∈ v, literal a = true) : Encodes literal v v := by
  induction v with
  | nil => exact .nil
  | cons a v ih =>
    obtain ⟨ha, hv⟩ := List.forall_mem_cons.1 hv
    exact .literal ha (ih hv)

/-- A byte of an encoded text is literal, an escape sign, a `+` or a digit. -/
theorem not_mem (h : Encodes literal v e) {a : UInt8} (hliteral : literal a = false)
    (hsign : a ≠ 37 ∧ a ≠ 43) (hdigit : hexDigit a = none) : a ∉ e := by
  induction h with
  | nil => exact List.not_mem_nil
  | literal hb _ ih => exact List.not_mem_cons_of_ne_of_not_mem (ne_of_literal hb hliteral).symm ih
  | plus _ _ ih => exact List.not_mem_cons_of_ne_of_not_mem hsign.2 ih
  | escape _ hpair _ ih =>
    obtain ⟨hh, hl⟩ := hexPair_ne hpair hdigit
    simp only [List.mem_cons, hsign.1, hh.symm, hl.symm, ih, or_false, not_false_eq_true]

theorem wellEscaped (hescape : literal 37 = false) (h : Encodes literal v e) : WellEscaped e := by
  induction h with
  | nil => exact .of_length (Nat.zero_lt_succ _)
  | literal hb _ ih => exact (WellEscaped.cons (ne_of_literal hb hescape)).2 ih
  | plus _ _ ih => exact (WellEscaped.cons (by decide)).2 ih
  | escape _ hpair _ ih => exact (WellEscaped.escape hpair).2 ih

/-- **Decoding undoes encoding.** -/
theorem decode_eq (hescape : literal 37 = false) (hplus : literal 43 = false)
    (h : Encodes literal v e) : decode e = v := by
  induction h with
  | nil => rfl
  | literal hb _ ih =>
    rw [decode_cons (ne_of_literal hb hescape), if_neg (ne_of_literal hb hplus), ih]
  | plus _ _ ih => rw [decode_cons (by decide), if_pos rfl, ih]
  | escape _ hpair _ ih => rw [decode_escape hpair, ih]

/-- **No other text is written like a text of literal bytes.** -/
theorem eq_iff_of_literal (hescape : literal 37 = false) (hplus : literal 43 = false)
    {k : List UInt8} (hk : ∀ a ∈ k, literal a = true) (h : Encodes literal v e) :
    e = k ↔ v = k := by
  induction h generalizing k with
  | nil => exact Iff.rfl
  | literal _ _ ih =>
    cases k with
    | nil => exact iff_of_false (List.cons_ne_nil _ _) (List.cons_ne_nil _ _)
    | cons a k =>
      rw [List.cons.injEq, List.cons.injEq, ih (List.forall_mem_cons.1 hk).2]
  | plus hblank =>
    refine iff_of_false ?_ ?_
    · rintro rfl
      exact ne_of_literal (hk 43 List.mem_cons_self) hplus rfl
    · rintro rfl
      exact ne_of_literal (hk 32 List.mem_cons_self) hblank rfl
  | @escape b _ _ _ _ hb =>
    refine iff_of_false ?_ ?_
    · rintro rfl
      exact ne_of_literal (hk 37 List.mem_cons_self) hescape rfl
    · rintro rfl
      exact ne_of_literal (hk b List.mem_cons_self) hb rfl

end Encodes

end Percent

end MiniServer
