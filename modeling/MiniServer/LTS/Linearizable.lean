import Mathlib.Data.List.Nodup

/-!
# Linearizable histories

A *sequential object* is a function from a state and an operation to an answer and the next state.
When its operations are called by many threads at once, what is seen is a history of calls and
returns.  `Linearizes apply s₀ history order` : the answers in the history are those of the object
when the operations in `order` are done one after the other, and a call that returned before another
one started comes before it in this order.

## Main results

* `Linearizes.call`, `Linearizes.point`, `Linearizes.returns` : a history with its order grows by a
  call, by an operation that takes effect, or by a return.
* `Linearizes.order_cases` : of two calls that have returned, one took effect in front of the other.
* `Linearizes.before` : and that is the first, when it had returned as the second was called.
-/

namespace MiniServer

/-- What is seen of a call `k`. -/
inductive CallEvent (K I R : Type*) where
  | called (k : K) (op : I)
  | returned (k : K) (answer : R)
  deriving DecidableEq, Repr

variable {K I R S : Type*}

/-- Call `a` had returned when `b` was called. -/
def Precedes (history : List (CallEvent K I R)) (a b : K) : Prop :=
  ∃ h₁ h₂, history = h₁ ++ h₂ ∧ (∃ answer, .returned a answer ∈ h₁) ∧ ∃ op, .called b op ∈ h₂

theorem precedes_concat {history : List (CallEvent K I R)} {e : CallEvent K I R} {a b : K}
    (h : Precedes (history ++ [e]) a b) :
    Precedes history a b ∨ (∃ op, e = .called b op) ∧ ∃ answer, .returned a answer ∈ history := by
  obtain ⟨h₁, h₂, heq, ⟨answer, ha⟩, op, hb⟩ := h
  rcases List.eq_nil_or_concat' h₂ with rfl | ⟨h₂, e', rfl⟩
  · cases hb
  · rw [← List.append_assoc] at heq
    obtain ⟨rfl, he⟩ := List.append_inj' heq rfl
    cases he
    rcases List.mem_append.1 hb with hb | hb
    · exact .inl ⟨h₁, h₂, rfl, ⟨answer, ha⟩, op, hb⟩
    · exact .inr ⟨⟨op, (List.mem_singleton.1 hb).symm⟩, answer, List.mem_append_left _ ha⟩

namespace SeqObject

variable (apply : S → I → R × S)

/-- The state after the operations, one after the other. -/
def state (s : S) (order : List (K × I)) : S := order.foldl (fun s x => (apply s x.2).2) s

/-- The answers to them. -/
def answers : S → List (K × I) → List (K × R)
  | _, [] => []
  | s, (k, op) :: order => (k, (apply s op).1) :: answers (apply s op).2 order

variable {apply}

@[simp] theorem state_append (s : S) (o₁ o₂ : List (K × I)) :
    state apply s (o₁ ++ o₂) = state apply (state apply s o₁) o₂ := List.foldl_append

@[simp] theorem state_cons (s : S) (k : K) (op : I) (order : List (K × I)) :
    state apply s ((k, op) :: order) = state apply (apply s op).2 order := rfl

theorem answers_append (s : S) (o₁ o₂ : List (K × I)) :
    answers apply s (o₁ ++ o₂) = answers apply s o₁ ++ answers apply (state apply s o₁) o₂ := by
  induction o₁ generalizing s with
  | nil => rfl
  | cons x o₁ ih => exact congrArg (List.cons _) (ih _)

theorem map_fst_answers (apply : S → I → R × S) (s : S) (order : List (K × I)) :
    (answers apply s order).map Prod.fst = order.map Prod.fst := by
  induction order generalizing s with
  | nil => rfl
  | cons x order ih => exact congrArg (List.cons _) (ih _)

theorem mem_answers {s : S} {o₁ o₂ : List (K × I)} {k : K} {op : I} :
    (k, (apply (state apply s o₁) op).1) ∈ answers apply s (o₁ ++ (k, op) :: o₂) := by
  rw [answers_append]
  exact List.mem_append_right _ List.mem_cons_self

/-- What every operation keeps holds of the state after all of them. -/
theorem state_induction {P : S → Prop} (h : ∀ s op, P s → P (apply s op).2) {s : S} (hs : P s)
    (order : List (K × I)) : P (state apply s order) := by
  induction order generalizing s with
  | nil => exact hs
  | cons x order ih => exact ih (h _ _ hs)

end SeqObject

open SeqObject

/-- The history is that of the object, with its operations in this order. -/
structure Linearizes (apply : S → I → R × S) (s₀ : S) (history : List (CallEvent K I R))
    (order : List (K × I)) : Prop where
  /-- A number stands for one call. -/
  single : ∀ k op op', .called k op ∈ history → .called k op' ∈ history → op = op'
  /-- What takes effect was called. -/
  called : ∀ k op, (k, op) ∈ order → .called k op ∈ history
  /-- Nothing takes effect twice. -/
  once : (order.map Prod.fst).Nodup
  /-- What has returned took effect, with this answer. -/
  returned : ∀ k answer, .returned k answer ∈ history → (k, answer) ∈ answers apply s₀ order
  /-- What takes effect does so behind all that had returned when it was called. -/
  precedes : ∀ a b, Precedes history a b → ∀ o₁ op o₂, order = o₁ ++ (b, op) :: o₂ →
    a ∈ o₁.map Prod.fst

namespace Linearizes

variable {apply : S → I → R × S} {s₀ : S} {history : List (CallEvent K I R)} {order : List (K × I)}

theorem nil : Linearizes (K := K) apply s₀ [] [] where
  single _ _ _ h := by cases h
  called _ _ h := by cases h
  once := List.nodup_nil
  returned _ _ h := by cases h
  precedes a b := by
    rintro ⟨h₁, h₂, heq, ⟨answer, ha⟩, -⟩
    obtain ⟨rfl, rfl⟩ := List.append_eq_nil_iff.1 heq.symm
    cases ha

theorem mem_order (h : Linearizes apply s₀ history order) {k : K} {answer : R}
    (hk : .returned k answer ∈ history) : k ∈ order.map Prod.fst := by
  rw [← map_fst_answers apply s₀]
  exact List.mem_map_of_mem (h.returned k answer hk)

/-- A call. -/
theorem call (h : Linearizes apply s₀ history order) {k : K} {op : I}
    (hk : ∀ op, .called k op ∉ history) :
    Linearizes apply s₀ (history ++ [.called k op]) order where
  single k' op₁ op₂ h₁ h₂ := by
    rw [List.mem_append, List.mem_singleton] at h₁ h₂
    rcases h₁ with h₁ | h₁ <;> rcases h₂ with h₂ | h₂
    · exact h.single k' op₁ op₂ h₁ h₂
    · cases h₂
      exact absurd h₁ (hk _)
    · cases h₁
      exact absurd h₂ (hk _)
    · cases h₁
      cases h₂
      rfl
  called k' op' hmem := List.mem_append_left _ (h.called k' op' hmem)
  once := h.once
  returned k' answer hmem := by
    rcases List.mem_append.1 hmem with hmem | hmem
    · exact h.returned k' answer hmem
    · cases List.mem_singleton.1 hmem
  precedes a b hab o₁ op' o₂ heq := by
    rcases precedes_concat hab with hab | ⟨⟨op'', hb⟩, -⟩
    · exact h.precedes a b hab o₁ op' o₂ heq
    · -- the new call has not taken effect
      cases hb
      have hmem : (k, op') ∈ order := heq ▸ List.mem_append_right _ List.mem_cons_self
      exact absurd (h.called k op' hmem) (hk op')

/-- A call takes effect. -/
theorem point (h : Linearizes apply s₀ history order) {k : K} {op : I}
    (hcalled : .called k op ∈ history) (hk : k ∉ order.map Prod.fst) :
    Linearizes apply s₀ history (order ++ [(k, op)]) where
  single := h.single
  called k' op' hmem := by
    rcases List.mem_append.1 hmem with hmem | hmem
    · exact h.called k' op' hmem
    · cases List.mem_singleton.1 hmem
      exact hcalled
  once := by
    rw [List.map_append, List.map_singleton]
    exact h.once.append (List.nodup_singleton k) (List.disjoint_singleton.2 hk)
  returned k' answer hmem := by
    rw [answers_append]
    exact List.mem_append_left _ (h.returned k' answer hmem)
  precedes a b hab o₁ op' o₂ heq := by
    rcases List.eq_nil_or_concat' o₂ with rfl | ⟨o₂, x, rfl⟩
    · -- all that has returned took effect before
      obtain ⟨rfl, -⟩ := List.append_inj' heq rfl
      obtain ⟨h₁, h₂, rfl, ⟨answer, ha⟩, -⟩ := hab
      exact h.mem_order (List.mem_append_left _ ha)
    · have hsplit : order ++ [(k, op)] = (o₁ ++ (b, op') :: o₂) ++ [x] := by simpa using heq
      exact h.precedes a b hab o₁ op' o₂ (List.append_inj' hsplit rfl).1

/-- A return. -/
theorem returns (h : Linearizes apply s₀ history order) {k : K} {answer : R}
    (hk : (k, answer) ∈ answers apply s₀ order) :
    Linearizes apply s₀ (history ++ [.returned k answer]) order where
  single k' op₁ op₂ h₁ h₂ := by
    rw [List.mem_append, List.mem_singleton] at h₁ h₂
    exact h.single k' op₁ op₂ (h₁.resolve_right nofun) (h₂.resolve_right nofun)
  called k' op' hmem := List.mem_append_left _ (h.called k' op' hmem)
  once := h.once
  returned k' answer' hmem := by
    rcases List.mem_append.1 hmem with hmem | hmem
    · exact h.returned k' answer' hmem
    · cases List.mem_singleton.1 hmem
      exact hk
  precedes a b hab := by
    rcases precedes_concat hab with hab | ⟨⟨op, hb⟩, -⟩
    · exact h.precedes a b hab
    · cases hb

/-- The answer of a call is that of its place in the order. -/
theorem answer_eq (h : Linearizes apply s₀ history order) {k : K} {op : I} {answer : R}
    {o₁ o₂ : List (K × I)} (heq : order = o₁ ++ (k, op) :: o₂)
    (hk : .returned k answer ∈ history) : answer = (apply (state apply s₀ o₁) op).1 := by
  have hmem : (k, (apply (state apply s₀ o₁) op).1) ∈ answers apply s₀ order := heq ▸ mem_answers
  have hnodup : ((answers apply s₀ order).map Prod.fst).Nodup := by
    rw [map_fst_answers]
    exact h.once
  exact congrArg Prod.snd (List.inj_on_of_nodup_map hnodup (h.returned k answer hk) hmem rfl)

/-- Of two calls in the order, one is in front of the other. -/
theorem order_cases (h : Linearizes apply s₀ history order) {a b : K} {opa opb : I} {ra rb : R}
    (hne : a ≠ b) (hcalla : .called a opa ∈ history) (hcallb : .called b opb ∈ history)
    (hreta : .returned a ra ∈ history) (hretb : .returned b rb ∈ history) :
    (∃ o₁ o₂ o₃, order = o₁ ++ (a, opa) :: (o₂ ++ (b, opb) :: o₃)) ∨
      ∃ o₁ o₂ o₃, order = o₁ ++ (b, opb) :: (o₂ ++ (a, opa) :: o₃) := by
  have hmem : ∀ {k : K} {op : I} {answer : R}, .called k op ∈ history →
      .returned k answer ∈ history → (k, op) ∈ order := by
    intro k op answer hcalled hreturned
    obtain ⟨⟨k', op'⟩, hin, rfl⟩ := List.mem_map.1 (h.mem_order hreturned)
    rwa [h.single _ _ _ hcalled (h.called _ _ hin)]
  obtain ⟨o₁, o₂, heq⟩ := List.append_of_mem (hmem hcalla hreta)
  have hb := hmem hcallb hretb
  rw [heq, List.mem_append, List.mem_cons] at hb
  rcases hb with hb | hb | hb
  · obtain ⟨p₁, p₂, rfl⟩ := List.append_of_mem hb
    exact .inr ⟨p₁, p₂, o₂, by simpa using heq⟩
  · cases hb
    exact absurd rfl hne
  · obtain ⟨p₁, p₂, rfl⟩ := List.append_of_mem hb
    exact .inl ⟨o₁, p₁, p₂, heq⟩

/-- A call that had returned when another one was called took effect in front of it. -/
theorem before (h : Linearizes apply s₀ history order) {a b : K} {opa opb : I} {ra rb : R}
    (hab : Precedes history a b) (hcalla : .called a opa ∈ history)
    (hcallb : .called b opb ∈ history) (hreta : .returned a ra ∈ history)
    (hretb : .returned b rb ∈ history) :
    ∃ o₁ o₂ o₃, order = o₁ ++ (a, opa) :: (o₂ ++ (b, opb) :: o₃) := by
  have hfront : ∀ o₁ op o₂, order = o₁ ++ (b, op) :: o₂ → a ∈ o₁.map Prod.fst := h.precedes a b hab
  have hnodup := h.once
  have hne : a ≠ b := by
    rintro rfl
    obtain ⟨⟨k, op⟩, hin, rfl⟩ := List.mem_map.1 (h.mem_order hreta)
    obtain ⟨o₁, o₂, rfl⟩ := List.append_of_mem hin
    rw [List.map_append, List.nodup_append] at hnodup
    exact hnodup.2.2 k (hfront o₁ op o₂ rfl) k List.mem_cons_self rfl
  refine (h.order_cases hne hcalla hcallb hreta hretb).resolve_right ?_
  rintro ⟨o₁, o₂, o₃, rfl⟩
  rw [List.map_append, List.nodup_append] at hnodup
  exact hnodup.2.2 a (hfront o₁ opb _ rfl) a (by simp) rfl

end Linearizes

end MiniServer
