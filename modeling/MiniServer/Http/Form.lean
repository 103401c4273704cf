import MiniServer.Http.Router
import MiniServer.Http.UrlDecode
import MiniServer.Text.Fields

/-!
# Form bodies

`formValueFrom` is the loop of `formValue` with its indices, where `substr` may throw.  It always
ends with a value, which is that of the first pair with the key (`formValueFrom_eq`).

A form is written as `application/x-www-form-urlencoded` text by `FormEncodes`;
`formValue_of_encodes` says that every value is read back as it was.
-/

namespace MiniServer

namespace RequestRouter

/-! ### The loop with its indices -/

/-- `std::string::substr`, `none` for `std::out_of_range`; without a count it goes to the end. -/
def substr (s : Bytes) (pos : ℕ) (count : Option ℕ) : Option Bytes :=
  if pos ≤ s.length then
    match count with
    | none => some (s.drop pos)
    | some n => some ((s.drop pos).take n)
  else none

/-- `std::string::find` of a character from a position on. -/
def findFrom (b : UInt8) (s : Bytes) (pos : ℕ) : Option ℕ :=
  (Text.find [b] (s.drop pos)).map (pos + ·)

/-- The rest of a round, which has cut a pair: it returns, or goes on to `next`. -/
def checkPair (key pair : Bytes) (next : Option Bytes) : Option Bytes :=
  match findFrom 61 pair 0 with
  | none => next
  | some eq => do
    if (← substr pair 0 (some eq)) = key then
      return HttpRequest.urlDecode (← substr pair (eq + 1) none)
    else next

/-- `RequestRouter::formValue` from a start on; `none` when `substr` throws or the rounds run
out. -/
def formValueFrom (body key : Bytes) : ℕ → ℕ → Option Bytes
  | 0, _ => none
  | n + 1, start =>
    if start ≤ body.length then
      match findFrom 38 body start with
      | none => do checkPair key (← substr body start none) (some [])
      | some stop => do
        let pair ← substr body start (some (stop - start))
        checkPair key pair (formValueFrom body key n (stop + 1))
    else some []

/-- The value of a pair with the key. -/
def pairValue (key pair : Bytes) : Option Bytes :=
  match Text.find [61] pair with
  | none => none
  | some eq =>
    if pair.take eq = key then some (HttpRequest.urlDecode (pair.drop (eq + 1))) else none

theorem formValueLoop_last {key rest : Bytes} (hfind : Text.find [38] rest = none) (n : ℕ) :
    formValueLoop key (n + 1) rest = (pairValue key rest).getD [] := by
  rw [formValueLoop, hfind]
  unfold pairValue
  dsimp only
  cases Text.find [61] rest with
  | none => rfl
  | some eq => dsimp only; split_ifs <;> rfl

theorem formValueLoop_next {key rest : Bytes} {amp : ℕ} (hfind : Text.find [38] rest = some amp)
    (n : ℕ) : formValueLoop key (n + 1) rest =
      (pairValue key (rest.take amp)).getD (formValueLoop key n (rest.drop (amp + 1))) := by
  rw [formValueLoop, hfind]
  unfold pairValue
  dsimp only
  cases Text.find [61] (rest.take amp) with
  | none => rfl
  | some eq => dsimp only; split_ifs <;> rfl

/-- The pairs of a body are what stands between two `&`. -/
theorem formValueLoop_eq (key : Bytes) {n : ℕ} {rest : Bytes} (hn : rest.length < n) :
    formValueLoop key n rest = ((rest.splitOn 38).findSome? (pairValue key)).getD [] := by
  induction n generalizing rest with
  | zero => exact absurd hn (Nat.not_lt_zero _)
  | succ n ih =>
    cases hfind : Text.find [38] rest with
    | none =>
      rw [formValueLoop_last hfind,
        List.splitOn_eq_singleton (Text.find_singleton_eq_none_iff.1 hfind),
        List.findSome?_singleton]
    | some amp =>
      have hle := Text.find_le hfind
      rw [List.length_singleton] at hle
      have hlength : (rest.drop (amp + 1)).length < n := by
        rw [List.length_drop]
        omega
      rw [formValueLoop_next hfind, ih hlength, Text.splitOn_eq_cons_of_find hfind,
        List.findSome?_cons]
      cases pairValue key (rest.take amp) <;> rfl

theorem formValue_eq (body key : Bytes) :
    formValue body key = ((body.splitOn 38).findSome? (pairValue key)).getD [] :=
  formValueLoop_eq key (Nat.lt_succ_self _)

theorem substr_of_le {s : Bytes} {pos : ℕ} (h : pos ≤ s.length) (n : ℕ) :
    substr s pos (some n) = some ((s.drop pos).take n) := if_pos h

theorem substr_rest {s : Bytes} {pos : ℕ} (h : pos ≤ s.length) :
    substr s pos none = some (s.drop pos) := if_pos h

/-- The positions in a pair are inside it. -/
theorem checkPair_eq (key pair : Bytes) (next : Option Bytes) :
    checkPair key pair next = (pairValue key pair).or next := by
  unfold checkPair findFrom pairValue
  rw [List.drop_zero]
  cases hfind : Text.find [61] pair with
  | none => rfl
  | some eq =>
    have hle := Text.find_le hfind
    rw [List.length_singleton] at hle
    rw [Option.map_some, Nat.zero_add]
    dsimp only
    rw [substr_of_le (Nat.zero_le _), substr_rest hle]
    show (if pair.take eq = key then _ else next) = _
    split_ifs <;> rfl

/-- **The loop ends, and no `substr` throws.** -/
theorem formValueFrom_eq {body : Bytes} (key : Bytes) {n start : ℕ} (h : start ≤ body.length)
    (hn : body.length - start < n) :
    formValueFrom body key n start = some (formValueLoop key n (body.drop start)) := by
  induction n generalizing start with
  | zero => exact absurd hn (Nat.not_lt_zero _)
  | succ n ih =>
    rw [formValueFrom, if_pos h, findFrom]
    cases hfind : Text.find [38] (body.drop start) with
    | none =>
      rw [formValueLoop_last hfind, Option.map_none]
      dsimp only
      rw [substr_rest h]
      show checkPair key (body.drop start) (some []) = _
      rw [checkPair_eq]
      cases pairValue key (body.drop start) <;> rfl
    | some amp =>
      have hle := Text.find_le hfind
      rw [List.length_singleton, List.length_drop] at hle
      rw [formValueLoop_next hfind, Option.map_some]
      dsimp only
      rw [substr_of_le h, Nat.add_sub_cancel_left, ih (by omega) (by omega), Nat.add_assoc,
        ← List.drop_drop]
      show checkPair key ((body.drop start).take amp) _ = _
      rw [checkPair_eq]
      cases pairValue key ((body.drop start).take amp) <;> rfl

/-! ### Forms -/

/-- The bytes that stand for themselves: letters, digits, `-`, `.`, `_` and `~`. -/
def unreserved (b : UInt8) : Bool :=
  decide (65 ≤ b ∧ b ≤ 90 ∨ 97 ≤ b ∧ b ≤ 122 ∨ 48 ≤ b ∧ b ≤ 57 ∨ b = 45 ∨ b = 46 ∨ b = 95 ∨
    b = 126)

/-- A name and a value, as they are written. -/
def PairEncodes (pair : Bytes × Bytes) (text : Bytes) : Prop :=
  ∃ name value, Percent.Encodes unreserved pair.1 name ∧ Percent.Encodes unreserved pair.2 value ∧
    text = name ++ 61 :: value

/-- A form, as it is written. -/
def FormEncodes (pairs : List (Bytes × Bytes)) (body : Bytes) : Prop :=
  ∃ texts, List.Forall₂ PairEncodes pairs texts ∧ body = [38].intercalate texts

/-- The value of a pair that is written is read back under its name, and under no other. -/
theorem pairValue_of_encodes {key text : Bytes} {pair : Bytes × Bytes}
    (hkey : ∀ b ∈ key, unreserved b) (h : PairEncodes pair text) :
    pairValue key text = if pair.1 = key then some pair.2 else none := by
  obtain ⟨name, value, hname, hvalue, rfl⟩ := h
  have hsep : 61 ∉ name := hname.not_mem (by decide) (by decide) (by decide)
  have hdecode : HttpRequest.urlDecode value = pair.2 :=
    ((HttpRequest.urlDecode_eq_iff value).2 (hvalue.wellEscaped (by decide))).trans
      (hvalue.decode_eq (by decide) (by decide))
  have hiff : name = key ↔ pair.1 = key :=
    hname.eq_iff_of_literal (by decide) (by decide) hkey
  unfold pairValue
  rw [Text.find_singleton_append hsep]
  dsimp only
  rw [List.take_left, ← List.drop_drop, List.drop_left, List.drop_one, List.tail_cons, hdecode]
  simp only [hiff]

theorem PairEncodes.not_mem {pair : Bytes × Bytes} {text : Bytes} (h : PairEncodes pair text) :
    38 ∉ text := by
  obtain ⟨name, value, hname, hvalue, rfl⟩ := h
  have hname' : 38 ∉ name := hname.not_mem (by decide) (by decide) (by decide)
  have hvalue' : 38 ∉ value := hvalue.not_mem (by decide) (by decide) (by decide)
  simp [hname', hvalue']

theorem not_mem_of_encodes {pairs : List (Bytes × Bytes)} {texts : List Bytes}
    (h : List.Forall₂ PairEncodes pairs texts) : ∀ text ∈ texts, 38 ∉ text := by
  induction h with
  | nil => exact fun _ ht => absurd ht List.not_mem_nil
  | cons hpair _ ih => exact List.forall_mem_cons.2 ⟨hpair.not_mem, ih⟩

/-- The first pair with the key gives the value. -/
theorem findSome?_pairValue {key : Bytes} (hkey : ∀ b ∈ key, unreserved b)
    {pairs : List (Bytes × Bytes)} {texts : List Bytes}
    (h : List.Forall₂ PairEncodes pairs texts) :
    texts.findSome? (pairValue key) = (pairs.find? fun p => p.1 = key).map Prod.snd := by
  induction h with
  | nil => rfl
  | @cons pair text pairs texts hpair _ ih =>
    rw [List.findSome?_cons, List.find?_cons, pairValue_of_encodes hkey hpair, ih]
    by_cases hname : pair.1 = key <;> simp [hname]

/-- **Form bodies are read back as they were written.**  For every body the loop ends without an
exception; for the text of a form, and a key that is written as it is, it gives the value of the
first pair with the key. -/
theorem formValue_of_encodes (body key : Bytes) :
    formValueFrom body key (body.length + 1) 0 = some (formValue body key) ∧
      ∀ pairs, FormEncodes pairs body → (∀ b ∈ key, unreserved b) →
        formValue body key = ((pairs.find? fun p => p.1 = key).map Prod.snd).getD [] := by
  refine ⟨formValueFrom_eq key (Nat.zero_le _) (Nat.lt_succ_self _), ?_⟩
  rintro pairs ⟨texts, htexts, rfl⟩ hkey
  rw [formValue_eq, ← findSome?_pairValue hkey htexts]
  cases texts with
  | nil => rfl
  | cons text texts =>
    rw [List.splitOn_intercalate 38 (not_mem_of_encodes htexts) (List.cons_ne_nil text texts)]

/-- A form with an empty name, an escaped `+` and an empty value. -/
theorem formValue_of_encodes_form :
    formValue (.ofString "=%3d&key=a%2B+&key=") (.ofString "key") = .ofString "a+ " := by
  have hkey : ∀ b ∈ Bytes.ofString "key", unreserved b := by decide +kernel
  have hfirst : PairEncodes ([], .ofString "=") (.ofString "=%3d") :=
    ⟨[], Bytes.ofString "%3d", .nil, .escape (by decide) (by decide) .nil, by decide⟩
  have hsecond : PairEncodes (.ofString "key", .ofString "a+ ") (.ofString "key=a%2B+") :=
    ⟨Bytes.ofString "key", Bytes.ofString "a%2B+", .self hkey,
      .literal (by decide) (.escape (by decide) (by decide) (.plus (by decide) .nil)), by decide⟩
  have hthird : PairEncodes (.ofString "key", []) (.ofString "key=") :=
    ⟨Bytes.ofString "key", [], .self hkey, .nil, by decide⟩
  have hform : FormEncodes
      [([], .ofString "="), (.ofString "key", .ofString "a+ "), (.ofString "key", [])]
      (.ofString "=%3d&key=a%2B+&key=") :=
    ⟨[.ofString "=%3d", .ofString "key=a%2B+", .ofString "key="],
      .cons hfirst (.cons hsecond (.cons hthird .nil)), by decide⟩
  exact (formValue_of_encodes _ _).2 _ hform hkey

end RequestRouter

end MiniServer
