import Mathlib.Data.List.Infix

/-!
# First occurrences in a list

`find pat s` is the position of the first occurrence of `pat` in `s`, as `std::string::find`
computes it.  `find_eq_some_iff` characterises it, and `find_append` says that appending to `s`
does not move an occurrence that is already there.
-/

namespace MiniServer

namespace Text

variable {α : Type*} [DecidableEq α]

/-- Position of the first occurrence of `pat`. -/
def find (pat : List α) : List α → Option ℕ
  | [] => if pat = [] then some 0 else none
  | a :: s => if pat <+: a :: s then some 0 else (find pat s).map (· + 1)

/-- `pat` occurs in `s` at position `i`. -/
def OccursAt (pat s : List α) (i : ℕ) : Prop := i ≤ s.length ∧ pat <+: s.drop i

omit [DecidableEq α] in
theorem occursAt_zero {pat s : List α} : OccursAt pat s 0 ↔ pat <+: s := by
  simp [OccursAt]

omit [DecidableEq α] in
theorem occursAt_succ {pat s : List α} {a : α} {i : ℕ} :
    OccursAt pat (a :: s) (i + 1) ↔ OccursAt pat s i := by
  simp [OccursAt]

omit [DecidableEq α] in
theorem OccursAt.le {pat s : List α} {i : ℕ} (h : OccursAt pat s i) :
    i + pat.length ≤ s.length := by
  have hle := h.2.length_le
  rw [List.length_drop] at hle
  have := h.1
  omega

omit [DecidableEq α] in
theorem OccursAt.append {pat s : List α} {i : ℕ} (h : OccursAt pat s i) (t : List α) :
    OccursAt pat (s ++ t) i := by
  refine ⟨by rw [List.length_append]; have := h.1; omega, ?_⟩
  rw [List.drop_append_of_le_length h.1]
  exact h.2.trans (List.prefix_append _ _)

omit [DecidableEq α] in
/-- An occurrence that ends inside `s` is an occurrence in `s`. -/
theorem OccursAt.of_append {pat s t : List α} {i : ℕ} (h : OccursAt pat (s ++ t) i)
    (hi : i + pat.length ≤ s.length) : OccursAt pat s i := by
  refine ⟨by omega, ?_⟩
  have hpre := h.2
  rw [List.drop_append_of_le_length (by omega)] at hpre
  exact List.prefix_of_prefix_length_le hpre (List.prefix_append _ _)
    (by rw [List.length_drop]; omega)

theorem find_eq_none_iff {pat s : List α} : find pat s = none ↔ ∀ i, ¬ OccursAt pat s i := by
  induction s with
  | nil =>
    rw [find]
    constructor
    · intro h i hi
      split_ifs at h with hpat
      exact hpat (by simpa using hi.2)
    · intro h
      rw [if_neg]
      rintro rfl
      exact h 0 (by simp [OccursAt])
  | cons a s ih =>
    rw [find]
    constructor
    · intro h i hi
      split_ifs at h with hpre
      rw [Option.map_eq_none_iff, ih] at h
      cases i with
      | zero => exact hpre (occursAt_zero.1 hi)
      | succ i => exact h i (occursAt_succ.1 hi)
    · intro h
      rw [if_neg fun hpre => h 0 (occursAt_zero.2 hpre), Option.map_eq_none_iff, ih]
      exact fun i hi => h (i + 1) (occursAt_succ.2 hi)

/-- `find` returns the least position of an occurrence. -/
theorem find_eq_some_iff {pat s : List α} {i : ℕ} :
    find pat s = some i ↔ OccursAt pat s i ∧ ∀ j < i, ¬ OccursAt pat s j := by
  induction s generalizing i with
  | nil =>
    rw [find]
    split_ifs with hpat
    · subst hpat
      constructor
      · rintro ⟨⟩
        exact ⟨by simp [OccursAt], fun j hj => absurd hj (Nat.not_lt_zero j)⟩
      · rintro ⟨hi, -⟩
        rw [Nat.le_zero.1 hi.1]
    · simp only [false_iff, not_and]
      intro hi
      exact absurd (by simpa using hi.2) hpat
  | cons a s ih =>
    rw [find]
    split_ifs with hpre
    · -- the pattern is a prefix, and no position is smaller
      constructor
      · rintro ⟨⟩
        exact ⟨occursAt_zero.2 hpre, fun j hj => absurd hj (Nat.not_lt_zero j)⟩
      · rintro ⟨-, hmin⟩
        cases i with
        | zero => rfl
        | succ i => exact absurd (occursAt_zero.2 hpre) (hmin 0 (Nat.succ_pos i))
    · -- the search goes on, and positions shift by one
      rw [Option.map_eq_some_iff]
      constructor
      · rintro ⟨i, hi, rfl⟩
        obtain ⟨hocc, hmin⟩ := ih.1 hi
        refine ⟨occursAt_succ.2 hocc, fun j hj hj' => ?_⟩
        cases j with
        | zero => exact hpre (occursAt_zero.1 hj')
        | succ j => exact hmin j (by omega) (occursAt_succ.1 hj')
      · rintro ⟨hocc, hmin⟩
        cases i with
        | zero => exact absurd (occursAt_zero.1 hocc) hpre
        | succ i =>
          refine ⟨i, ih.2 ⟨occursAt_succ.1 hocc, fun j hj hj' => ?_⟩, rfl⟩
          exact hmin (j + 1) (by omega) (occursAt_succ.2 hj')

theorem find_occursAt {pat s : List α} {i : ℕ} (h : find pat s = some i) : OccursAt pat s i :=
  (find_eq_some_iff.1 h).1

theorem find_le {pat s : List α} {i : ℕ} (h : find pat s = some i) :
    i + pat.length ≤ s.length :=
  (find_occursAt h).le

theorem find_singleton_eq_none_iff {a : α} {s : List α} : find [a] s = none ↔ a ∉ s := by
  induction s with
  | nil => simp [find]
  | cons b s ih =>
    rw [find]
    split_ifs with hpre
    · obtain ⟨rfl, -⟩ := List.cons_prefix_cons.1 hpre
      simp
    · have hab : a ≠ b := fun hab => hpre (by simp [hab])
      rw [Option.map_eq_none_iff, ih, List.mem_cons, not_or]
      exact ⟨fun h => ⟨hab, h⟩, And.right⟩

/-- A symbol is found behind the text that lacks it. -/
theorem find_singleton_append {a : α} {l : List α} (h : a ∉ l) (t : List α) :
    find [a] (l ++ a :: t) = some l.length := by
  induction l with
  | nil => simp [find]
  | cons b l ih =>
    rw [List.mem_cons, not_or] at h
    rw [List.cons_append, find, if_neg (by simp [List.cons_prefix_cons, h.1]), ih h.2]
    rfl

/-- Appending does not move the first occurrence. -/
theorem find_append {pat s : List α} {i : ℕ} (h : find pat s = some i) (t : List α) :
    find pat (s ++ t) = some i := by
  obtain ⟨hocc, hmin⟩ := find_eq_some_iff.1 h
  refine find_eq_some_iff.2 ⟨hocc.append t, fun j hj hj' => hmin j hj (hj'.of_append ?_)⟩
  have := hocc.le
  omega

/-- A pattern does not occur across a symbol that it does not contain. -/
theorem find_append_cons {pat s : List α} {sep : α} (hpat : pat ≠ []) (hsep : sep ∉ pat)
    (h : find pat s = none) (t : List α) :
    find pat (s ++ sep :: t) = (find pat t).map (· + (s.length + 1)) := by
  induction s with
  | nil =>
    rw [List.nil_append, find, if_neg]
    · rfl
    · rintro ⟨u, hu⟩
      cases pat with
      | nil => exact hpat rfl
      | cons a pat =>
        cases hu
        exact hsep List.mem_cons_self
  | cons a s ih =>
    rw [find] at h
    split_ifs at h with hpre
    rw [Option.map_eq_none_iff] at h
    rw [List.cons_append, find, if_neg, ih h, Option.map_map]
    · congr 1
    intro hpre'
    -- either the pattern ends before the symbol or the symbol is in it
    rcases List.prefix_or_prefix_of_prefix hpre'
      (List.prefix_append (a :: s) (sep :: t)) with hle | ⟨u, rfl⟩
    · exact hpre hle
    · rw [← List.cons_append, List.prefix_append_right_inj] at hpre'
      cases u with
      | nil => exact hpre (by simp)
      | cons b u =>
        rw [List.cons_prefix_cons] at hpre'
        exact hsep (by simp [hpre'.1])

end Text

end MiniServer
