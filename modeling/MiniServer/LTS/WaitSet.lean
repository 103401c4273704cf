import Mathlib.Data.Nat.Notation
import MiniServer.LTS.Basic

/-!
# Condition variables

A thread that finds its predicate false sleeps in `wait`; a thread that makes it true calls
`notify_one` or `notify_all` behind its section.  `WaitSet` counts the threads at one condition
variable, and `WaitSet.Step` is what a step of a program that uses it may do to the counts.

No wakeup is lost (`WaitSet.Covers`): while a thread sleeps, there are no more waits to satisfy than
threads about to test the predicate and calls of `notify_one` that are due.  A program has this
property when each of its steps is a `WaitSet.Step` (`LTS.covers_of_step`).
-/

namespace MiniServer

/-- The threads at a condition variable, counted. -/
structure WaitSet where
  /-- In `wait`. -/
  sleepers : ℕ := 0
  /-- About to test the predicate. -/
  awake : ℕ := 0
  /-- Calls of `notify_one` that are due. -/
  one : ℕ := 0
  /-- Calls of `notify_all` that are due. -/
  all : ℕ := 0
  /-- How many waits the state satisfies. -/
  ready : ℕ := 0
  /-- The predicate is true for good. -/
  opened : Bool := false

namespace WaitSet

/-- What a step may do. -/
inductive Step (w : WaitSet) : WaitSet → Prop
  /-- A thread finds the predicate false. -/
  | sleep {w' : WaitSet} : w.opened = false → w.ready = 0 → w' = { w with
      sleepers := w.sleepers + 1
      awake := w.awake - 1 } → Step w w'
  /-- A thread finds it true, and takes what it has waited for. -/
  | pass {w' : WaitSet} : w.awake = w'.awake + 1 → w'.ready + 1 ≤ w.ready ∨ w.opened = true →
      w'.sleepers = w.sleepers → w'.one = w.one → w'.all = w.all → w'.opened = w.opened → Step w w'
  /-- A thread satisfies `n` waits and is to call `notify_one` as often; others come to the test. -/
  | change {w' : WaitSet} (n : ℕ) : w'.ready ≤ w.ready + n → w'.one = w.one + n →
      w.awake ≤ w'.awake → w'.sleepers = w.sleepers → w'.all = w.all → w'.opened = w.opened →
      Step w w'
  /-- A thread makes the predicate true for good and is to call `notify_all`. -/
  | opening {w' : WaitSet} : 0 < w'.all → Step w w'
  /-- `notify_one` wakes a thread. -/
  | notifyOne {w' : WaitSet} : w' = { w with
      sleepers := w.sleepers - 1
      awake := w.awake + 1
      one := w.one - 1 } → Step w w'
  /-- `notify_all`, and any other step that leaves no thread in `wait`. -/
  | nobody {w' : WaitSet} : w'.sleepers = 0 → Step w w'
  /-- A thread returns from `wait` without a notification. -/
  | wake {w' : WaitSet} : w' = { w with
      sleepers := w.sleepers - 1
      awake := w.awake + 1 } → Step w w'

/-- No wakeup is lost. -/
def Covers (w : WaitSet) : Prop :=
  0 < w.sleepers → 0 < w.all ∨ w.opened = false ∧ w.ready ≤ w.awake + w.one

theorem Covers.step {w w' : WaitSet} (h : w.Covers) (hstep : Step w w') : w'.Covers := by
  intro hsleepers
  cases hstep with
  | sleep hopened hready hw =>
    subst hw
    exact .inr ⟨hopened, by dsimp only; omega⟩
  | pass hawake hready hsame hone hall hopened =>
    rw [hsame] at hsleepers
    refine (h hsleepers).imp (fun hpos => hall ▸ hpos) fun ⟨hclosed, hle⟩ => ?_
    refine ⟨hopened.trans hclosed, ?_⟩
    have htaken := hready.resolve_right (by rw [hclosed]; exact Bool.false_ne_true)
    omega
  | change n hready hone hawake hsame hall hopened =>
    rw [hsame] at hsleepers
    refine (h hsleepers).imp (fun hpos => hall ▸ hpos) fun ⟨hclosed, hle⟩ => ?_
    exact ⟨hopened.trans hclosed, by omega⟩
  | opening hall => exact .inl hall
  | notifyOne hw =>
    subst hw
    dsimp only at hsleepers ⊢
    refine (h (by omega)).imp_right fun ⟨hclosed, hle⟩ => ⟨hclosed, ?_⟩
    omega
  | nobody hnone => omega
  | wake hw =>
    subst hw
    dsimp only at hsleepers ⊢
    refine (h (by omega)).imp_right fun ⟨hclosed, hle⟩ => ⟨hclosed, ?_⟩
    omega

end WaitSet

/-- **No wakeup is lost** in a program whose steps are those of a wait set. -/
theorem LTS.covers_of_step {S L : Type*} {A : LTS S L} {waits : S → WaitSet} {s : S}
    (h : A.Reachable s) (h₀ : (waits A.init).sleepers = 0)
    (hstep : ∀ s l s', A.Reachable s → A.step s l = some s' →
      WaitSet.Step (waits s) (waits s')) : (waits s).Covers :=
  LTS.ReachableIf.invariant (I := fun s => (waits s).Covers) h
    (fun hpos => absurd h₀ (Nat.ne_of_gt hpos))
    fun s l s' hs hcovers _ hst => hcovers.step (hstep s l s' hs hst)

end MiniServer
