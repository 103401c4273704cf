import Mathlib.Order.RelClasses
import MiniServer.LTS.Basic

/-!
# Inevitable states

`A.InevitableAmid own may idle goal s` says that the runs from `s` come to the goal, whatever the
order of the steps: a run of steps that `may` happen is finite before the goal, apart from steps
that change nothing and from `idle` steps, such as the passing of time, of which any number may come
between; and until then the system has a step of its `own` that changes something, so that it waits
for nobody else.  What a step counts as depends on the state before it.

A measure proves it (`inevitableAmid_of_rank`), a number or a value of any other well-founded order:
each step that may happen and changes the state lowers the measure, no idle step raises it, and a
state that is no goal has a step.
-/

namespace MiniServer

namespace LTS

variable {S L : Type*} {A : LTS S L} {own may idle : S → L → Prop} {goal : S → Prop}

/-- A run of steps that do not count. -/
def Idles (A : LTS S L) (idle : S → L → Prop) : S → S → Prop :=
  Relation.ReflTransGen fun s s' => ∃ l, idle s l ∧ A.step s l = some s'

/-- Every run comes to the goal, with any number of idle steps between the others. -/
inductive InevitableAmid (A : LTS S L) (own may idle : S → L → Prop) (goal : S → Prop) : S → Prop
  | now {s : S} : goal s → InevitableAmid A own may idle goal s
  | later {s : S} :
      (∀ s₁, A.Idles idle s s₁ → ¬ goal s₁ → ∃ l s', own s₁ l ∧ A.step s₁ l = some s' ∧ s' ≠ s₁) →
      (∀ s₁ l s', A.Idles idle s s₁ → ¬ goal s₁ → may s₁ l → A.step s₁ l = some s' → s' ≠ s₁ →
        InevitableAmid A own may idle goal s') →
      InevitableAmid A own may idle goal s

/-- Every run comes to the goal, where all steps count. -/
abbrev Inevitable (A : LTS S L) (own may : L → Prop) (goal : S → Prop) : S → Prop :=
  A.InevitableAmid (fun _ => own) (fun _ => may) (fun _ _ => False) goal

/-- **The rule of the measure.** -/
theorem inevitableAmid_of_rank {α : Type*} [Preorder α] [WellFoundedLT α] (I : S → Prop)
    (rank : S → α)
    (hidle : ∀ s l s', I s → idle s l → A.step s l = some s' → I s' ∧ rank s' ≤ rank s)
    (hdecreases : ∀ s l s', I s → may s l → A.step s l = some s' → s' ≠ s →
      goal s' ∨ I s' ∧ rank s' < rank s)
    (hprogress : ∀ s, I s → ¬ goal s → ∃ l s', own s l ∧ A.step s l = some s' ∧ s' ≠ s) {s : S}
    (hs : I s) : A.InevitableAmid own may idle goal s := by
  induction hrank : rank s using WellFoundedLT.induction generalizing s with
  | ind a ih =>
    subst hrank
    have hidles : ∀ s₁, A.Idles idle s s₁ → I s₁ ∧ rank s₁ ≤ rank s := by
      intro s₁ h
      induction h with
      | refl => exact ⟨hs, le_rfl⟩
      | tail _ hstep ih' =>
        obtain ⟨l, hl, hstep⟩ := hstep
        obtain ⟨hI, hle⟩ := hidle _ _ _ ih'.1 hl hstep
        exact ⟨hI, hle.trans ih'.2⟩
    refine .later (fun s₁ h hgoal => hprogress s₁ (hidles s₁ h).1 hgoal) ?_
    intro s₁ l s' h hgoal hl hstep hne
    obtain ⟨hI, hle⟩ := hidles s₁ h
    rcases hdecreases s₁ l s' hI hl hstep hne with hs' | ⟨hs', hlt⟩
    · exact .now hs'
    · exact ih (rank s') (hlt.trans_le hle) hs' rfl

/-- The rule of the measure where every step counts. -/
theorem inevitable_of_rank {α : Type*} [Preorder α] [WellFoundedLT α] (I : S → Prop)
    (rank : S → α) {own may : L → Prop}
    (hdecreases : ∀ s l s', I s → may l → A.step s l = some s' → s' ≠ s →
      goal s' ∨ I s' ∧ rank s' < rank s)
    (hprogress : ∀ s, I s → ¬ goal s → ∃ l s', own l ∧ A.step s l = some s' ∧ s' ≠ s) {s : S}
    (hs : I s) : A.Inevitable own may goal s :=
  inevitableAmid_of_rank I rank (fun _ _ _ _ hl _ => hl.elim) hdecreases hprogress hs

end LTS

end MiniServer
