import Mathlib.Data.List.Basic

/-!
# One step of one thread

A pool of threads over a shared state steps by picking a thread.  `stepThread f ts i` lets thread
`i` take the step `f`, which gives the new shared state and the thread that is left, `none` when it
has returned.  `stepThread_eq_some` is the inversion lemma: the other threads stay as they are.
-/

namespace MiniServer

variable {S T : Type*}

/-- Thread `i` takes the step `f`. -/
def stepThread (f : T → Option (S × Option T)) (ts : List T) (i : ℕ) : Option (S × List T) :=
  (ts[i]?).bind fun t => (f t).map fun (s, t') => (s, ts.take i ++ t'.toList ++ ts.drop (i + 1))

theorem stepThread_eq_some {f : T → Option (S × Option T)} {ts ts' : List T} {i : ℕ} {s : S}
    (h : stepThread f ts i = some (s, ts')) :
    ∃ l₁ t l₂ t', ts = l₁ ++ t :: l₂ ∧ ts[i]? = some t ∧ f t = some (s, t') ∧
      ts' = l₁ ++ t'.toList ++ l₂ := by
  unfold stepThread at h
  obtain ⟨t, ht, h⟩ := Option.bind_eq_some_iff.1 h
  obtain ⟨⟨s', t'⟩, hf, heq⟩ := Option.map_eq_some_iff.1 h
  rw [Prod.mk.injEq] at heq
  obtain ⟨rfl, rfl⟩ := heq
  obtain ⟨hi, rfl⟩ := List.getElem?_eq_some_iff.1 ht
  refine ⟨ts.take i, ts[i], ts.drop (i + 1), t', ?_, ht, hf, rfl⟩
  rw [List.getElem_cons_drop, List.take_append_drop]

theorem stepThread_append (f : T → Option (S × Option T)) (l₁ l₂ : List T) (t : T) :
    stepThread f (l₁ ++ t :: l₂) l₁.length =
      (f t).map fun (s, t') => (s, l₁ ++ t'.toList ++ l₂) := by
  simp [stepThread]

/-- A queue and a pool, up to the order: the thread at one place first. -/
theorem perm_thread (queue l₁ l₂ : List T) (t : Option T) :
    (queue ++ (l₁ ++ t.toList ++ l₂)).Perm (t.toList ++ (queue ++ (l₁ ++ l₂))) := by
  cases t with
  | none => simp
  | some t =>
    have hmiddle := @List.perm_middle _ t (queue ++ l₁) l₂
    simpa using hmiddle

/-- The first of the queue joins the pool. -/
theorem perm_start {queue queue' : List T} {t : T} (h : queue = t :: queue') (ts : List T) :
    (queue' ++ (ts ++ [t])).Perm (queue ++ ts) := by
  rw [h, List.cons_append, ← List.append_assoc]
  exact List.perm_append_singleton t _

/-- The thread that steps, in front of the others. -/
theorem perm_thread_cons (queue : List T) {ts l₁ l₂ : List T} {t : T} (h : ts = l₁ ++ t :: l₂) :
    (queue ++ ts).Perm (t :: (queue ++ (l₁ ++ l₂))) := by
  have hthread := perm_thread queue l₁ l₂ (some t)
  rw [h]
  simpa using hthread

/-- A thread after a step is the one that stepped or one of the others. -/
theorem mem_thread {queue l₁ l₂ : List T} {t : Option T} {x : T}
    (h : x ∈ queue ++ (l₁ ++ t.toList ++ l₂)) : t = some x ∨ x ∈ queue ++ (l₁ ++ l₂) := by
  rw [(perm_thread queue l₁ l₂ t).mem_iff, List.mem_append, Option.mem_toList] at h
  exact h

end MiniServer
