import MiniServer.Http.Request
import MiniServer.Text.Percent

/-!
# `urlDecode` and the reference decoder

`urlDecode` passes the two bytes behind a `%` to `strtol` and skips them, whatever they are.  Where
they are hexadecimal digits, `strtol` gives the byte that they denote; elsewhere it gives a number
between `-15` and `15`, which is never the `%` that the reference decoder copies.  So the two
decoders agree exactly on the texts without such a place (`HttpRequest.urlDecode_eq_decode_iff`).
`HttpRequest.hexDigit` and `Percent.hexDigit` are one table.
-/

namespace MiniServer

namespace HttpRequest

/-! ### Numbers of at most two digits -/

theorem hexDigit_bounds {b : UInt8} {x : ℕ} (h : hexDigit b = some x) :
    x < 16 ∧ 48 ≤ b.toNat := by
  unfold hexDigit at h
  simp only [UInt8.le_iff_toNat_le, UInt8.reduceToNat] at h
  split_ifs at h
  all_goals
    rw [Option.some.injEq] at h
    omega

theorem hexValue_of_digit {b : UInt8} {x : ℕ} (h : hexDigit b = some x) (n : ℕ) (s : Bytes) :
    hexValue n (b :: s) = hexValue (16 * n + x) s := by
  rw [hexValue, h]

theorem hexValue_of_not_digit {b : UInt8} (h : hexDigit b = none) (n : ℕ) (s : Bytes) :
    hexValue n (b :: s) = n := by
  rw [hexValue, h]

/-- One digit is a small number, and no digit is none. -/
theorem hexValue_lt {s : Bytes} (h : s.length ≤ 1) : hexValue 0 s < 16 := by
  match s with
  | [] => exact Nat.zero_lt_succ _
  | [b] =>
    cases hb : hexDigit b with
    | none => rw [hexValue_of_not_digit hb]; exact Nat.zero_lt_succ _
    | some x =>
      rw [hexValue_of_digit hb]
      simpa [hexValue] using (hexDigit_bounds hb).1
  | _ :: _ :: _ => exact absurd h (by simp)

theorem stripHexPrefix_of_length {s : Bytes} (h : s.length ≤ 2) : stripHexPrefix s = s := by
  match s with
  | [] => rfl
  | [_] => rfl
  | [_, _] => rfl
  | _ :: _ :: _ :: _ => exact absurd h (by simp)

/-- The digits that `strtol` looks at: blanks in front, and a sign, are skipped. -/
def digitsOf (s : Bytes) : Bytes := (stripSign (s.cstr.dropWhile Bytes.isSpace)).2

theorem stripSign_sublist (s : Bytes) : (stripSign s).2.Sublist s := by
  cases s with
  | nil => exact List.Sublist.refl []
  | cons b s =>
    rw [stripSign]
    split_ifs
    · exact List.sublist_cons_self b s
    · exact List.sublist_cons_self b s
    · exact List.Sublist.refl _

theorem digitsOf_sublist (s : Bytes) : (digitsOf s).Sublist s :=
  (stripSign_sublist _).trans
    ((List.dropWhile_sublist Bytes.isSpace).trans (List.takeWhile_sublist _))

theorem strtol16_pair (h l : UInt8) :
    strtol16 [h, l] = hexValue 0 (digitsOf [h, l]) ∨
      strtol16 [h, l] = -(hexValue 0 (digitsOf [h, l]) : ℤ) := by
  have hprefix := stripHexPrefix_of_length (digitsOf_sublist [h, l]).length_le
  unfold strtol16
  dsimp only
  rw [show (stripSign ((Bytes.cstr [h, l]).dropWhile Bytes.isSpace)).2 = digitsOf [h, l] from rfl,
    hprefix]
  split_ifs
  · exact .inr rfl
  · exact .inl rfl

/-- Two bytes that are not two digits make a number below 16. -/
theorem hexValue_digitsOf_lt {h l : UInt8} (hpair : Percent.hexPair h l = none) :
    hexValue 0 (digitsOf [h, l]) < 16 := by
  by_cases hlength : (digitsOf [h, l]).length ≤ 1
  · exact hexValue_lt hlength
  · -- nothing is skipped, so one of the two bytes is not a digit
    have hall : digitsOf [h, l] = [h, l] :=
      (digitsOf_sublist [h, l]).eq_of_length_le (by simp; omega)
    rw [hall]
    rcases Percent.hexPair_eq_none_iff.1 hpair with hh | hl
    · rw [hexValue_of_not_digit hh]
      exact Nat.zero_lt_succ _
    · cases hh : hexDigit h with
      | none => rw [hexValue_of_not_digit hh]; exact Nat.zero_lt_succ _
      | some x =>
        rw [hexValue_of_digit hh, hexValue_of_not_digit hl]
        simpa using (hexDigit_bounds hh).1

/-- ... which is not the number of a `%`. -/
theorem ofInt_strtol16_ne {h l : UInt8} (hpair : Percent.hexPair h l = none) :
    UInt8.ofInt (strtol16 [h, l]) ≠ 37 := by
  have hsmall : ∀ n < 16, UInt8.ofInt (n : ℕ) ≠ 37 ∧ UInt8.ofInt (-(n : ℕ)) ≠ 37 := by decide
  have hlt := hexValue_digitsOf_lt hpair
  rcases strtol16_pair h l with heq | heq
  · rw [heq]
    exact (hsmall _ hlt).1
  · rw [heq]
    exact (hsmall _ hlt).2

/-- `strtol` skips nothing in front of two digits. -/
theorem strtol16_digits {h l : UInt8} {x y : ℕ} (hh : hexDigit h = some x)
    (hl : hexDigit l = some y) : strtol16 [h, l] = (16 * x + y : ℕ) := by
  have hne : ∀ {b : UInt8} {n : ℕ}, hexDigit b = some n → ∀ c : UInt8, c.toNat < 48 → b ≠ c := by
    rintro b n hb c hc rfl
    exact absurd (hexDigit_bounds hb).2 (not_le.2 hc)
  have hcstr : Bytes.cstr [h, l] = [h, l] := by
    simp [Bytes.cstr, hne hh 0 (by decide), hne hl 0 (by decide)]
  have hspace : Bytes.isSpace h = false := by
    have hle := (hexDigit_bounds hh).2
    unfold Bytes.isSpace
    rw [decide_eq_false_iff_not]
    rintro (rfl | ⟨-, hs⟩)
    · exact absurd hle (by decide)
    · exact absurd (hle.trans (UInt8.le_iff_toNat_le.1 hs)) (by decide)
  have hsign : stripSign [h, l] = (false, [h, l]) := by
    rw [stripSign, if_neg (hne hh 45 (by decide)), if_neg (hne hh 43 (by decide))]
  unfold strtol16
  rw [hcstr, List.dropWhile_cons, hspace, if_neg Bool.false_ne_true, hsign]
  dsimp only
  rw [stripHexPrefix_of_length (s := [h, l]) (Nat.le_refl 2), hexValue_of_digit hh,
    hexValue_of_digit hl, if_neg Bool.false_ne_true, Nat.mul_zero, Nat.zero_add]
  rfl

/-- Two digits make the byte that they denote. -/
theorem ofInt_strtol16 {h l b : UInt8} (hpair : Percent.hexPair h l = some b) :
    UInt8.ofInt (strtol16 [h, l]) = b := by
  obtain ⟨x, y, hh, hl, rfl⟩ := Percent.hexPair_eq_some_iff.1 hpair
  have hx := (hexDigit_bounds hh).1
  have hy := (hexDigit_bounds hl).1
  have hsmall : (((16 * x + y : ℕ) : ℤ) % 2 ^ 8).toNat = 16 * x + y := by omega
  rw [strtol16_digits hh hl, UInt8.ofInt, hsmall]

/-! ### The two decoders -/

/-- The two decoders agree up to the first `%` that is not followed by two digits. -/
theorem urlDecode_eq_iff (s : Bytes) : urlDecode s = Percent.decode s ↔ Percent.WellEscaped s := by
  fun_induction urlDecode s with
  | case1 h l s ih =>
    cases hpair : Percent.hexPair h l with
    | none =>
      refine iff_of_false (fun heq => ?_) (Percent.WellEscaped.not_malformed hpair s)
      rw [Percent.decode_malformed hpair] at heq
      exact ofInt_strtol16_ne hpair (List.cons.inj heq).1
    | some c =>
      rw [Percent.decode_escape hpair, ofInt_strtol16 hpair, List.cons.injEq,
        Percent.WellEscaped.escape hpair, ih, and_iff_right rfl]
  | case2 b h l s hb ih =>
    rw [Percent.decode_cons hb, Percent.WellEscaped.cons hb, ← ih, List.cons.injEq]
    exact and_iff_right rfl
  | case3 b s hshort ih =>
    have hlength : s.length < 2 := by
      match s with
      | [] => exact Nat.zero_lt_succ _
      | [_] => exact Nat.lt_succ_self 1
      | h :: l :: s => exact (hshort h l s rfl).elim
    have htail : urlDecode s = Percent.decode s := ih.2 (.of_length (by omega))
    rw [Percent.decode_cons_of_length hlength, htail]
    exact iff_of_true rfl (.of_length (Nat.succ_lt_succ hlength))
  | case4 => exact iff_of_true rfl (.of_length (Nat.zero_lt_succ _))

/-- **`urlDecode` decodes exactly the escapes where every `%` with two bytes behind it is one.** -/
theorem urlDecode_eq_decode_iff (s : Bytes) :
    urlDecode s = Percent.decode s ↔
      ∀ before h l after, s = before ++ 37 :: h :: l :: after →
        (Percent.hexDigit h).isSome ∧ (Percent.hexDigit l).isSome := by
  rw [urlDecode_eq_iff]
  constructor
  · intro hs before h l after heq
    obtain ⟨b, hb⟩ := Option.isSome_iff_exists.1 (hs before h l after heq)
    obtain ⟨x, y, hh, hl, -⟩ := Percent.hexPair_eq_some_iff.1 hb
    rw [hh, hl]
    exact ⟨rfl, rfl⟩
  · intro hs before h l after heq
    obtain ⟨hh, hl⟩ := hs before h l after heq
    obtain ⟨x, hx⟩ := Option.isSome_iff_exists.1 hh
    obtain ⟨y, hy⟩ := Option.isSome_iff_exists.1 hl
    rw [Percent.hexPair_eq_some_iff.2 ⟨x, y, hx, hy, rfl⟩]
    rfl

/-- **A malformed escape makes a byte that the text does not denote**, here a NUL. -/
theorem urlDecode_malformed :
    let s := Bytes.ofString "a%zzb"
    urlDecode s ≠ Percent.decode s ∧ Percent.decode s = s ∧
      urlDecode s = Bytes.ofString "a" ++ 0 :: Bytes.ofString "b" := by
  decide

end HttpRequest

end MiniServer
