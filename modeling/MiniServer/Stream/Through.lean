import Mathlib.Data.List.Basic

/-!
# A list up to its first end mark

`through p l` is the part of `l` up to and with the first element that satisfies `p`, all of `l`
when there is none.  It grows with `l` (`through_mono`), and a list whose elements, the last one
perhaps excepted, are not marked is a prefix of it (`prefix_through`).
-/

namespace MiniServer

variable {α β : Type*} (p : α → Prop) [DecidablePred p]

/-- The list up to and with the first element that satisfies `p`. -/
def through : List α → List α
  | [] => []
  | a :: l => if p a then [a] else a :: through l

variable {p}

theorem through_isPrefix (l : List α) : through p l <+: l := by
  induction l with
  | nil => exact List.nil_prefix
  | cons a l ih =>
    rw [through]
    split_ifs
    · exact (List.prefix_cons_inj a).2 List.nil_prefix
    · exact (List.prefix_cons_inj a).2 ih

theorem through_mono {l l' : List α} (h : l <+: l') : through p l <+: through p l' := by
  induction l generalizing l' with
  | nil => exact List.nil_prefix
  | cons a l ih =>
    obtain ⟨t, rfl⟩ := h
    rw [List.cons_append, through, through]
    split_ifs
    · exact List.prefix_rfl
    · exact (List.prefix_cons_inj a).2 (ih (List.prefix_append l t))

theorem through_append {l : List α} (h : ∀ a ∈ l, ¬ p a) (l' : List α) :
    through p (l ++ l') = l ++ through p l' := by
  induction l with
  | nil => rfl
  | cons a l ih =>
    rw [List.cons_append, through, if_neg (h a List.mem_cons_self),
      ih fun b hb => h b (List.mem_cons_of_mem a hb)]
    rfl

/-- Nothing follows the first marked element. -/
theorem through_marked {l : List α} (h : ∀ a ∈ l, ¬ p a) {a : α} (ha : p a) (l' : List α) :
    through p (l ++ a :: l') = l ++ [a] := by
  rw [through_append h, through, if_pos ha]

theorem prefix_through {l l' : List α} (h : ∀ a ∈ l.dropLast, ¬ p a) (hl : l <+: l') :
    l <+: through p l' := by
  refine List.IsPrefix.trans ?_ (through_mono hl)
  rcases List.eq_nil_or_concat' l with rfl | ⟨init, a, rfl⟩
  · exact List.nil_prefix
  · rw [List.dropLast_concat] at h
    rw [through_append h, through]
    split_ifs <;> exact List.prefix_rfl

/-- A marked element is the last one. -/
theorem exists_through_eq {l : List α} (h : ∃ a ∈ through p l, p a) :
    ∃ init a, (∀ b ∈ init, ¬ p b) ∧ p a ∧ through p l = init ++ [a] := by
  induction l with
  | nil =>
    obtain ⟨a, ha, -⟩ := h
    cases ha
  | cons b l ih =>
    rw [through] at h ⊢
    split_ifs at h ⊢ with hb
    · exact ⟨[], b, fun _ h => absurd h List.not_mem_nil, hb, rfl⟩
    · obtain ⟨a, ha, hpa⟩ := h
      have htail : a ∈ through p l := (List.mem_cons.1 ha).resolve_left fun heq => hb (heq ▸ hpa)
      obtain ⟨init, a, hinit, hpa, heq⟩ := ih ⟨a, htail, hpa⟩
      exact ⟨b :: init, a, List.forall_mem_cons.2 ⟨hb, hinit⟩, hpa, by rw [heq]; rfl⟩

theorem through_map {p : β → Prop} {q : α → Prop} [DecidablePred p] [DecidablePred q] {f : α → β}
    (h : ∀ a, p (f a) ↔ q a) (l : List α) : through p (l.map f) = (through q l).map f := by
  induction l with
  | nil => rfl
  | cons a l ih =>
    rw [List.map_cons, through, through, ih]
    simp only [h]
    split_ifs <;> rfl

end MiniServer
