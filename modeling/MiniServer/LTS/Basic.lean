import Mathlib.Logic.Relation

/-!
# Computed labelled transition systems

A *computed* transition system resolves every choice in the label: `step s l` is the state
after the label `l`, or `none` when `l` is not possible in `s`.  Runs can therefore be
evaluated, and a bad run is a counterexample that a kernel reduction checks.

## Main definitions

* `LTS S L` : an initial state and a partial step function.
* `LTS.run` : the state after a list of labels.
* `LTS.ReachableIf G s` : `s` is reached by a run all of whose steps are allowed by the guard
  `G`, a condition on the state before the step and on its label.
* `LTS.Reachable s` : `s` is reached by any run.
* `LTS.Allowed G s ls` : the guard allows every step of the run `ls`, which is decidable.
* `LTS.ReachableIf.invariant` : the induction rule for guarded runs.
-/

namespace MiniServer

/-- A transition system with computed steps. -/
structure LTS (S : Type*) (L : Type*) where
  /-- The state every run starts in. -/
  init : S
  /-- The state after a label, `none` when the label is not possible. -/
  step : S → L → Option S

namespace LTS

variable {S L : Type*} (A : LTS S L)

/-- The state after a list of labels. -/
def run : S → List L → Option S
  | s, [] => some s
  | s, l :: ls => (A.step s l).bind fun s' => run s' ls

/-- States reached by runs whose steps all satisfy the guard `G`. -/
inductive ReachableIf (G : S → L → Prop) : S → Prop
  | init : ReachableIf G A.init
  | step {s s' : S} {l : L} :
      ReachableIf G s → G s l → A.step s l = some s' → ReachableIf G s'

/-- States reached by any run. -/
def Reachable : S → Prop := A.ReachableIf fun _ _ => True

/-- The guard allows every step of a run. -/
def Allowed (G : S → L → Prop) : S → List L → Prop
  | _, [] => True
  | s, l :: ls => G s l ∧ match A.step s l with
    | none => True
    | some s' => Allowed G s' ls

instance Allowed.decidable (G : S → L → Prop) [∀ s l, Decidable (G s l)] :
    ∀ s ls, Decidable (A.Allowed G s ls)
  | _, [] => inferInstanceAs (Decidable True)
  | s, l :: ls =>
    have : Decidable (match A.step s l with
        | none => True
        | some s' => A.Allowed G s' ls) :=
      match A.step s l with
      | none => inferInstanceAs (Decidable True)
      | some s' => Allowed.decidable G s' ls
    inferInstanceAs (Decidable (G s l ∧ _))

variable {A} {G G' : S → L → Prop}

theorem run_cons (s : S) (l : L) (ls : List L) :
    A.run s (l :: ls) = (A.step s l).bind fun s' => A.run s' ls := rfl

theorem run_singleton {s s' : S} {l : L} (h : A.step s l = some s') : A.run s [l] = some s' := by
  rw [run_cons, h]
  rfl

theorem run_append {s s₁ s₂ : S} {ls ls' : List L} (h : A.run s ls = some s₁)
    (h' : A.run s₁ ls' = some s₂) : A.run s (ls ++ ls') = some s₂ := by
  induction ls generalizing s with
  | nil =>
    cases h
    exact h'
  | cons l ls ih =>
    rw [run_cons, Option.bind_eq_some_iff] at h
    obtain ⟨s', hstep, h⟩ := h
    rw [List.cons_append, run_cons, hstep]
    exact ih h

namespace ReachableIf

/-- **The invariant rule.**  A predicate that holds initially and is kept by every allowed step
from a reachable state holds in every state that a guarded run reaches. -/
theorem invariant {I : S → Prop} {s : S} (h : A.ReachableIf G s) (h₀ : I A.init)
    (hstep : ∀ s l s', A.ReachableIf G s → I s → G s l → A.step s l = some s' → I s') : I s := by
  induction h with
  | init => exact h₀
  | step hs hG hst ih => exact hstep _ _ _ hs ih hG hst

/-- A guarded run prolonged by a run that the guard allows. -/
theorem run {s s' : S} (h : A.ReachableIf G s) {ls : List L} (hG : A.Allowed G s ls)
    (hr : A.run s ls = some s') : A.ReachableIf G s' := by
  induction ls generalizing s with
  | nil => cases hr; exact h
  | cons l ls ih =>
    rw [run_cons, Option.bind_eq_some_iff] at hr
    obtain ⟨s₁, hst, hr⟩ := hr
    obtain ⟨hl, hG⟩ := hG
    rw [hst] at hG
    exact ih (.step h hl hst) hG hr

end ReachableIf

theorem allowed_true (s : S) (ls : List L) : A.Allowed (fun _ _ => True) s ls := by
  induction ls generalizing s with
  | nil => trivial
  | cons l ls ih =>
    refine ⟨trivial, ?_⟩
    cases A.step s l with
    | none => trivial
    | some s' => exact ih s'

theorem reachable_of_run {s : S} {ls : List L} (h : A.run A.init ls = some s) :
    A.Reachable s :=
  ReachableIf.run .init (allowed_true _ _) h

/-- **Refinement.**  When each step is a run of another system, so is each run. -/
theorem Reachable.refine {S' L' : Type*} {B : LTS S' L'} {f : S → S'} {s : S} (h : A.Reachable s)
    (h₀ : f A.init = B.init)
    (hstep : ∀ s l s', A.Reachable s → A.step s l = some s' → ∃ ls, B.run (f s) ls = some (f s')) :
    B.Reachable (f s) := by
  induction h with
  | init => exact h₀ ▸ .init
  | step hs _ hst ih =>
    obtain ⟨ls, hrun⟩ := hstep _ _ _ hs hst
    exact ih.run (allowed_true _ _) hrun

end LTS

end MiniServer
