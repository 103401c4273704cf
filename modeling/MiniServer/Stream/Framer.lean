import Mathlib.Data.List.Basic

/-!
# Cutting a byte stream into records

A `Framer` cuts one record off the front of a buffer.  It carries the two facts that make
framing independent of how the stream arrives: a cut only splits the buffer, and a cut that
succeeds on a buffer succeeds with the same record on every longer one.

`Framer.Cuts s recs rest` says that the first `recs.length` cuts of `s` give `recs` and leave
`rest`; it is kept by appending to the stream (`Cuts.append`) and by one more cut
(`Cuts.snoc`), which is all that a reader that alternates between the two ever does.
-/

namespace MiniServer

/-- A cutter of records off the front of a buffer. -/
structure Framer (α : Type*) where
  /-- The first record and what follows it, `none` when the buffer holds no whole record. -/
  cut : List α → Option (List α × List α)
  append_of_cut : ∀ {s r rest}, cut s = some (r, rest) → r ++ rest = s
  cut_append : ∀ {s r rest}, cut s = some (r, rest) → ∀ t, cut (s ++ t) = some (r, rest ++ t)

namespace Framer

variable {α : Type*} (F : Framer α)

/-- Cut up to `n` records, stopping when the buffer holds no whole one. -/
def cutN : ℕ → List α → List (List α) × List α
  | 0, s => ([], s)
  | n + 1, s =>
    match F.cut s with
    | none => ([], s)
    | some (r, rest) => (r :: (cutN n rest).1, (cutN n rest).2)

/-- The first `recs.length` cuts of `s` give `recs` and leave `rest`. -/
def Cuts (s : List α) (recs : List (List α)) (rest : List α) : Prop :=
  F.cutN recs.length s = (recs, rest)

variable {F}

theorem cutN_of_none {s : List α} (h : F.cut s = none) (n : ℕ) : F.cutN n s = ([], s) := by
  cases n with
  | zero => rfl
  | succ n => simp only [cutN, h]

theorem cutN_mono {m n : ℕ} (h : m ≤ n) (s : List α) : (F.cutN m s).1 <+: (F.cutN n s).1 := by
  induction m generalizing n s with
  | zero => exact List.nil_prefix
  | succ m ih =>
    obtain ⟨n, rfl⟩ := Nat.exists_eq_succ_of_ne_zero (Nat.ne_zero_of_lt h)
    simp only [cutN]
    cases F.cut s with
    | none => exact List.nil_prefix
    | some p => exact (List.prefix_cons_inj p.1).2 (ih (Nat.le_of_succ_le_succ h) p.2)

namespace Cuts

theorem nil (s : List α) : F.Cuts s [] s := rfl

theorem cons_iff {s r rest : List α} {recs : List (List α)} :
    F.Cuts s (r :: recs) rest ↔ ∃ s', F.cut s = some (r, s') ∧ F.Cuts s' recs rest := by
  unfold Cuts
  rw [List.length_cons, cutN]
  cases F.cut s with
  | none => simp
  | some p =>
    obtain ⟨r', s'⟩ := p
    simp only [Prod.mk.injEq, List.cons.injEq, Option.some.injEq]
    constructor
    · rintro ⟨⟨rfl, h₁⟩, h₂⟩
      exact ⟨s', ⟨rfl, rfl⟩, Prod.ext h₁ h₂⟩
    · rintro ⟨_, ⟨rfl, rfl⟩, h⟩
      rw [h]
      exact ⟨⟨rfl, rfl⟩, rfl⟩

theorem flatten_append {s rest : List α} {recs : List (List α)} (h : F.Cuts s recs rest) :
    recs.flatten ++ rest = s := by
  induction recs generalizing s with
  | nil => cases h; rfl
  | cons r recs ih =>
    obtain ⟨s', hcut, h⟩ := cons_iff.1 h
    rw [List.flatten_cons, List.append_assoc, ih h]
    exact F.append_of_cut hcut

/-- More input does not change the records cut so far. -/
theorem append {s rest : List α} {recs : List (List α)} (h : F.Cuts s recs rest) (t : List α) :
    F.Cuts (s ++ t) recs (rest ++ t) := by
  induction recs generalizing s with
  | nil => cases h; exact nil _
  | cons r recs ih =>
    obtain ⟨s', hcut, h⟩ := cons_iff.1 h
    exact cons_iff.2 ⟨s' ++ t, F.cut_append hcut t, ih h⟩

/-- One more cut. -/
theorem snoc {s buf r rest : List α} {recs : List (List α)} (h : F.Cuts s recs buf)
    (hcut : F.cut buf = some (r, rest)) : F.Cuts s (recs ++ [r]) rest := by
  induction recs generalizing s with
  | nil => cases h; exact cons_iff.2 ⟨rest, hcut, nil _⟩
  | cons r' recs ih =>
    obtain ⟨s', hcut', h⟩ := cons_iff.1 h
    exact cons_iff.2 ⟨s', hcut', ih h⟩

/-- Records that are each cut whole are cut one by one from their concatenation. -/
theorem of_whole {recs : List (List α)} (h : ∀ r ∈ recs, F.cut r = some (r, []))
    (rest : List α) : F.Cuts (recs.flatten ++ rest) recs rest := by
  induction recs with
  | nil => exact nil rest
  | cons r recs ih =>
    rw [List.flatten_cons, List.append_assoc]
    exact cons_iff.2 ⟨recs.flatten ++ rest, F.cut_append (h r List.mem_cons_self) _,
      ih fun r' hr' => h r' (List.mem_cons_of_mem r hr')⟩

/-- A reader that is left with no whole record has all the records of the stream. -/
theorem cutN_eq {s rest : List α} {recs : List (List α)} (h : F.Cuts s recs rest)
    (hnone : F.cut rest = none) {n : ℕ} (hn : recs.length ≤ n) : F.cutN n s = (recs, rest) := by
  induction recs generalizing s n with
  | nil => cases h; exact cutN_of_none hnone n
  | cons r recs ih =>
    obtain ⟨s', hcut, h⟩ := cons_iff.1 h
    cases n with
    | zero => simp at hn
    | succ n =>
      simp only [cutN, hcut]
      rw [ih h (by simpa using hn)]

/-- A reader that has no whole record left has cut every record of the stream. -/
theorem unique {s rest rest' : List α} {recs recs' : List (List α)} (h : F.Cuts s recs rest)
    (h' : F.Cuts s recs' rest') (hnone : F.cut rest = none) (hnone' : F.cut rest' = none) :
    recs = recs' := by
  have hall := h.cutN_eq hnone (Nat.le_add_right recs.length recs'.length)
  have hall' := h'.cutN_eq hnone' (Nat.le_add_left recs'.length recs.length)
  exact congrArg Prod.fst (hall.symm.trans hall')

/-- A reader has the first records of a reader that cuts as often. -/
theorem prefix_cutN {s rest : List α} {recs : List (List α)} (h : F.Cuts s recs rest) {n : ℕ}
    (hn : recs.length ≤ n) : recs <+: (F.cutN n s).1 := by
  induction recs generalizing s n with
  | nil => exact List.nil_prefix
  | cons r recs ih =>
    obtain ⟨s', hcut, h⟩ := cons_iff.1 h
    cases n with
    | zero => simp at hn
    | succ n =>
      simp only [cutN, hcut]
      exact (List.prefix_cons_inj r).2 (ih h (by simpa using hn))

end Cuts

end Framer

end MiniServer
