import Mathlib.Data.List.Basic
import MiniServer.Text.Search

/-!
# Separated texts

A text of records has a separator behind each record, a record of fields has one between two
fields.  Both are read by cutting at every separator (`List.splitOn`), and a record or a field is
read back unless it contains the separator itself.

## Main results

* `Text.length_closed_iff` : a text has as many closed parts as records were written exactly when
  no record contains the separator.
* `Text.splitOn_intercalate` : joined fields fall into the parts of each.
-/

namespace MiniServer

namespace Text

variable {α : Type*} [DecidableEq α] {sep : α}

/-- The parts of a text that have a separator behind them. -/
def closed (sep : α) (s : List α) : List (List α) := (s.splitOn sep).dropLast

/-- The records of a text with a separator behind each. -/
def closeAll (sep : α) (records : List (List α)) : List α := (records.map (· ++ [sep])).flatten

theorem length_splitOn (sep : α) (s : List α) : (s.splitOn sep).length = s.count sep + 1 := by
  induction s with
  | nil => simp
  | cons a s ih =>
    rw [List.splitOn_cons_eq_if_modifyHead, List.count_cons]
    split_ifs
    · rw [List.length_cons, ih]
    · rw [List.length_modifyHead, ih, Nat.add_zero]

theorem length_splitOn_eq_one_iff {s : List α} : (s.splitOn sep).length = 1 ↔ sep ∉ s := by
  rw [length_splitOn, Nat.add_eq_right, List.count_eq_zero]

/-- The first part ends where the separator is found. -/
theorem splitOn_eq_cons_of_find {s : List α} {i : ℕ} (h : find [sep] s = some i) :
    s.splitOn sep = s.take i :: (s.drop (i + 1)).splitOn sep := by
  induction s generalizing i with
  | nil => cases h
  | cons a s ih =>
    rw [find] at h
    rw [List.splitOn_cons_eq_if_modifyHead]
    split_ifs at h with hpre
    · cases h
      obtain ⟨rfl, -⟩ := List.cons_prefix_cons.1 hpre
      rw [if_pos (beq_self_eq_true _)]
      rfl
    · obtain ⟨j, hj, rfl⟩ := Option.map_eq_some_iff.1 h
      have hne : ¬ (a == sep) = true := fun heq => hpre (by simp [eq_of_beq heq])
      rw [if_neg hne, ih hj]
      rfl

/-- Every record falls into its own parts. -/
theorem closed_closeAll (records : List (List α)) :
    closed sep (closeAll sep records) = records.flatMap (·.splitOn sep) := by
  unfold closed closeAll
  induction records with
  | nil => simp
  | cons r records ih =>
    rw [List.map_cons, List.flatten_cons, List.append_assoc, List.singleton_append,
      List.splitOn_append_cons_self, List.dropLast_append_of_ne_nil (List.splitOn_ne_nil _ _), ih,
      List.flatMap_cons]

theorem closed_closeAll_of_not_mem {records : List (List α)} (h : ∀ r ∈ records, sep ∉ r) :
    closed sep (closeAll sep records) = records := by
  rw [closed_closeAll]
  induction records with
  | nil => rfl
  | cons r records ih =>
    rw [List.flatMap_cons, List.splitOn_eq_singleton (h r List.mem_cons_self),
      ih fun r' hr' => h r' (List.mem_cons_of_mem r hr')]
    rfl

/-- No record falls into less than one part. -/
theorem length_le_flatMap_splitOn (sep : α) (records : List (List α)) :
    records.length ≤ (records.flatMap (·.splitOn sep)).length := by
  induction records with
  | nil => exact Nat.le_refl 0
  | cons r records ih =>
    rw [List.flatMap_cons, List.length_append, length_splitOn, List.length_cons]
    omega

/-- **A record that contains the separator is more than one part.** -/
theorem length_closed_iff {records : List (List α)} :
    (closed sep (closeAll sep records)).length = records.length ↔ ∀ r ∈ records, sep ∉ r := by
  constructor
  · rw [closed_closeAll]
    induction records with
    | nil => simp
    | cons r records ih =>
      intro hlength
      have hle := length_le_flatMap_splitOn sep records
      rw [List.flatMap_cons, List.length_append, List.length_cons] at hlength
      have hone := length_splitOn sep r
      refine List.forall_mem_cons.2 ⟨length_splitOn_eq_one_iff.1 (by omega), ih (by omega)⟩
  · intro h
    rw [closed_closeAll_of_not_mem h]

/-- Joined fields fall into the parts of each. -/
theorem splitOn_intercalate {fields : List (List α)} (h : fields ≠ []) :
    ([sep].intercalate fields).splitOn sep = fields.flatMap (·.splitOn sep) := by
  induction fields with
  | nil => exact absurd rfl h
  | cons f fields ih =>
    cases fields with
    | nil => simp
    | cons f' fields =>
      rw [List.intercalate_cons_cons, List.append_assoc, List.singleton_append,
        List.splitOn_append_cons_self, ih (List.cons_ne_nil f' fields)]
      rfl

end Text

end MiniServer
