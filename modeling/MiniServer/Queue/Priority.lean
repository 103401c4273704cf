import Mathlib.Data.Multiset.Basic
import Mathlib.Data.List.Sort

/-!
# Priority queues

`PriorityQueue Q α later` is the documented behaviour of a binary-heap adaptor over a
comparator `later`: `top?` is an element that no element precedes, `pop` removes that element,
and which of several equally early elements is on top is left open.  A development over an
arbitrary `PriorityQueue` therefore holds for every tie-breaking rule.

`SortedQueue` is the reference implementation: a list that carries the proof that it is sorted.
-/

namespace MiniServer

/-- Priority queues `Q` over `α`; `later a b` says that `a` must not leave before `b`. -/
class PriorityQueue (Q : Type*) (α : outParam Type*) (later : outParam (α → α → Bool)) where
  /-- The queue without elements. -/
  empty : Q
  /-- Add an element. -/
  push : α → Q → Q
  /-- An earliest element. -/
  top? : Q → Option α
  /-- Remove the element on top. -/
  pop : Q → Q
  /-- Number of elements. -/
  size : Q → ℕ
  /-- The elements, with their multiplicities. -/
  elems : Q → Multiset α
  elems_empty : elems empty = 0
  elems_push : ∀ a q, elems (push a q) = a ::ₘ elems q
  elems_pop : ∀ {q a}, top? q = some a → elems q = a ::ₘ elems (pop q)
  top?_eq_none : ∀ {q}, top? q = none → elems q = 0
  top?_earliest : ∀ {q a}, top? q = some a → ∀ b ∈ elems q, later a b = false
  size_eq : ∀ q, size q = (elems q).card

namespace PriorityQueue

variable {Q α : Type*} {later : α → α → Bool} [PriorityQueue Q α later]

attribute [simp] elems_empty elems_push

theorem mem_pop_of_ne {q : Q} {a b : α} (h : top? q = some a) (hb : b ∈ elems q) (hne : b ≠ a) :
    b ∈ elems (pop q) := by
  rw [elems_pop h, Multiset.mem_cons] at hb
  exact hb.resolve_left hne

theorem size_pop {q : Q} {a : α} (h : top? q = some a) : size q = size (pop q) + 1 := by
  rw [size_eq, size_eq, elems_pop h, Multiset.card_cons]

theorem top?_eq_none_of_size {q : Q} (h : size q = 0) : top? q = none := by
  cases ht : top? q with
  | none => rfl
  | some a => rw [size_pop ht] at h; omega

end PriorityQueue

/-- A list sorted by a comparator. -/
structure SortedQueue (α : Type*) (later : α → α → Bool) where
  /-- The elements, earliest first. -/
  elems : List α
  sorted : elems.Pairwise fun a b => later a b = false

namespace SortedQueue

variable {α : Type*} {later : α → α → Bool}

/-- Sorted lists are a priority queue for every comparator that compares any two elements
consistently. -/
@[reducible] def priorityQueue
    (total : Std.Total fun a b => later a b = false)
    (trans : IsTrans α fun a b => later a b = false) :
    PriorityQueue (SortedQueue α later) α later where
  empty := ⟨[], .nil⟩
  push a q := ⟨q.elems.orderedInsert (fun a b => later a b = false) a, q.sorted.orderedInsert a _⟩
  top? q := q.elems.head?
  pop q := ⟨q.elems.tail, q.sorted.tail⟩
  size q := q.elems.length
  elems q := q.elems
  elems_empty := rfl
  elems_push a q := Multiset.coe_eq_coe.2 (List.perm_orderedInsert _ a q.elems)
  elems_pop := by
    rintro ⟨_ | ⟨b, l⟩, hl⟩ a h <;> cases h
    rfl
  top?_eq_none := by
    rintro ⟨_ | ⟨b, l⟩, hl⟩ h
    · rfl
    · cases h
  top?_earliest := by
    rintro ⟨_ | ⟨b, l⟩, hl⟩ a h <;> cases h
    intro c hc
    rcases List.mem_cons.1 (Multiset.mem_coe.1 hc) with rfl | hc
    · exact (total.total c c).elim id id
    · exact (List.pairwise_cons.1 hl).1 c hc
  size_eq q := rfl

end SortedQueue

end MiniServer
