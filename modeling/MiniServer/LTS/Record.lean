import MiniServer.LTS.Basic

/-!
# Ledgers

`A.record m₀ write` is the system `A` with a ledger beside the state: every step writes to the
ledger, and no step reads it.  The runs are those of `A` (`reachable_fst`, `exists_ledger`), so what
is proved of the ledger in every reachable state is proved of every run of `A`.
-/

namespace MiniServer

namespace LTS

variable {S L M : Type*}

/-- The system with a ledger that every step writes to. -/
def record (A : LTS S L) (m₀ : M) (write : M → S → L → M) : LTS (S × M) L where
  init := (A.init, m₀)
  step p l := (A.step p.1 l).map fun s' => (s', write p.2 p.1 l)

variable {A : LTS S L} {m₀ : M} {write : M → S → L → M}

theorem record_step_eq_some {p p' : S × M} {l : L} :
    (A.record m₀ write).step p l = some p' ↔
      A.step p.1 l = some p'.1 ∧ p'.2 = write p.2 p.1 l := by
  obtain ⟨s', m'⟩ := p'
  simp only [record, Option.map_eq_some_iff, Prod.mk.injEq]
  constructor
  · rintro ⟨s'', hstep, rfl, rfl⟩
    exact ⟨hstep, rfl⟩
  · rintro ⟨hstep, rfl⟩
    exact ⟨s', hstep, rfl, rfl⟩

/-- A run with a ledger is a run. -/
theorem reachable_fst {p : S × M} (h : (A.record m₀ write).Reachable p) : A.Reachable p.1 := by
  induction h with
  | init => exact .init
  | step _ _ hstep ih => exact .step ih trivial (record_step_eq_some.1 hstep).1

/-- Every run has a ledger. -/
theorem exists_ledger {s : S} (h : A.Reachable s) :
    ∃ m, (A.record m₀ write).Reachable (s, m) := by
  induction h with
  | init => exact ⟨m₀, .init⟩
  | @step s s' l _ _ hstep ih =>
    obtain ⟨m, hm⟩ := ih
    exact ⟨write m s l, .step hm trivial (record_step_eq_some.2 ⟨hstep, rfl⟩)⟩

/-- The invariant rule for a state and its ledger. -/
theorem record_invariant {I : S → M → Prop} {p : S × M} (h : (A.record m₀ write).Reachable p)
    (h₀ : I A.init m₀)
    (hstep : ∀ s m l s', A.Reachable s → I s m → A.step s l = some s' → I s' (write m s l)) :
    I p.1 p.2 := by
  refine ReachableIf.invariant (I := fun p => I p.1 p.2) h h₀ fun p l p' hp hI _ hpp' => ?_
  obtain ⟨hs, hm⟩ := record_step_eq_some.1 hpp'
  rw [hm]
  exact hstep p.1 p.2 l p'.1 (reachable_fst hp) hI hs

end LTS

end MiniServer
