import Mathlib.Algebra.GroupWithZero.Nat
import Mathlib.Algebra.BigOperators.Group.List.Basic
import MiniServer.LTS.Progress
import MiniServer.LTS.WaitSet
import MiniServer.Workers.ThreadPool

/-!
# The notifications of the thread pool

`ThreadPool` lets a worker that sleeps in `cv_.wait` wake at any time.  `NotifiedPool` has the calls
of `notify_one` and `notify_all` as steps of their own: a worker sleeps until it is notified, or
wakes without a notification.  Its runs are runs of `ThreadPool` (`reachable_pool`), so what holds
of these holds here.

* `no_lost_wakeup` : a worker sleeps only while the calls of `notify_one` that are due and the
  workers about to test the predicate are enough for the tasks in the queue.
* `stop_returns` : `stop` returns, and no run needs a wakeup without a notification for it.
-/

namespace MiniServer

namespace Worker

variable {α : Type}

/-- The worker sleeps in `cv_.wait`. -/
def isAsleep : Worker α → Bool
  | .asleep => true
  | _ => false

/-- The worker is about to test the predicate. -/
def isAwake : Worker α → Bool
  | .lock => true
  | _ => false

/-- A worker after `notify_all`. -/
def woken : Worker α → Worker α
  | .asleep => .lock
  | w => w

/-- How many steps are left to the worker of a pool that is stopping, apart from queued tasks. -/
def rank : Worker α → ℕ
  | .lock => 1
  | .asleep => 2
  | .running _ => 2
  | .exited => 0

end Worker

/-- The pool with its condition variable. -/
structure NotifiedPool (α : Type) where
  pool : ThreadPool α
  /-- Threads in `enqueue`, between the section and `notify_one`. -/
  one : ℕ := 0
  /-- The thread in `stop` is between its section and `notify_all`. -/
  all : Bool := false
  deriving DecidableEq, Repr

namespace NotifiedPool

variable {α : Type}

/-- The steps of the threads. -/
inductive Label (α : Type) where
  /-- The section of `enqueue`, in any thread. -/
  | enqueue (task : α)
  /-- `notify_one`, with the worker that it wakes. -/
  | notifyOne (woken : Option ℕ)
  /-- `notify_all`. -/
  | notifyAll
  /-- The next step of a worker that does not sleep. -/
  | worker (i : ℕ)
  /-- A worker returns from `cv_.wait` without a notification. -/
  | wake (i : ℕ)
  /-- The next step of the thread that calls `stop`. -/
  | stop
  deriving DecidableEq, Repr

/-- A worker that sleeps wakes. -/
def wakeStep (s : NotifiedPool α) (i : ℕ) : Option (ThreadPool α) :=
  if (s.pool.workers[i]?).any Worker.isAsleep then s.pool.step (.worker i) else none

/-- A step of the pool. -/
def step (s : NotifiedPool α) : Label α → Option (NotifiedPool α)
  | .enqueue task =>
    -- `enqueue` returns without a notification once the pool is stopping
    some { s with
      pool := s.pool.enqueue task
      one := if s.pool.stopping then s.one else s.one + 1 }
  | .notifyOne none =>
    if 0 < s.one ∧ s.pool.workers.all (!·.isAsleep) then some { s with one := s.one - 1 } else none
  | .notifyOne (some i) =>
    if 0 < s.one then (s.wakeStep i).map fun pool => { s with pool, one := s.one - 1 } else none
  | .notifyAll =>
    if s.all then
      some { s with
        pool := { s.pool with workers := s.pool.workers.map Worker.woken }
        all := false }
    else none
  | .worker i =>
    if (s.pool.workers[i]?).any Worker.isAsleep then none
    else (s.pool.step (.worker i)).map fun pool => { s with pool }
  | .wake i => (s.wakeStep i).map fun pool => { s with pool }
  | .stop =>
    -- `stop` joins behind its `notify_all`
    if s.all then none
    else (s.pool.step .stop).map fun pool =>
      { s with pool, all := decide (s.pool.stop = .notCalled) }

/-- The pool from `start` on. -/
def lts (α : Type) (threadCount : ℕ) : LTS (NotifiedPool α) (Label α) where
  init := { pool := .start threadCount }
  step := step

/-- The ledger of the pool after a step. -/
def write (m : ThreadPool.Ledger α) (s : NotifiedPool α) : Label α → ThreadPool.Ledger α
  | .enqueue task => m.write s.pool (.enqueue task)
  | .worker i => m.write s.pool (.worker i)
  | _ => m

/-! ### The steps, case by case -/

/-- What a step does. -/
inductive Case (s : NotifiedPool α) : Label α → NotifiedPool α → Prop
  | refused (task : α) : s.pool.stopping = true → Case s (.enqueue task) s
  | accepted (task : α) : s.pool.stopping = false → Case s (.enqueue task) { s with
      pool := { s.pool with tasks := s.pool.tasks ++ [task] }
      one := s.one + 1 }
  | nobody : 0 < s.one → (∀ w ∈ s.pool.workers, w.isAsleep = false) →
      Case s (.notifyOne none) { s with one := s.one - 1 }
  | notified (l₁ l₂ : List (Worker α)) : 0 < s.one → s.pool.workers = l₁ ++ .asleep :: l₂ →
      Case s (.notifyOne (some l₁.length)) { s with
        pool := { s.pool with workers := l₁ ++ .lock :: l₂ }
        one := s.one - 1 }
  | everybody : s.all = true → Case s .notifyAll { s with
      pool := { s.pool with workers := s.pool.workers.map Worker.woken }
      all := false }
  | worker (l₁ l₂ : List (Worker α)) (w w' : Worker α) (pool : ThreadPool α) :
      s.pool.workers = l₁ ++ w :: l₂ → w.isAsleep = false → ThreadPool.WorkerCase s.pool w pool w' →
      Case s (.worker l₁.length) { s with pool := { pool with workers := l₁ ++ w' :: l₂ } }
  | wake (l₁ l₂ : List (Worker α)) : s.pool.workers = l₁ ++ .asleep :: l₂ →
      Case s (.wake l₁.length) { s with pool := { s.pool with workers := l₁ ++ .lock :: l₂ } }
  | stop (pool : ThreadPool α) : s.all = false → ThreadPool.StopCase s.pool pool →
      Case s .stop { s with pool, all := decide (s.pool.stop = .notCalled) }

theorem getElem?_split {T : Type*} {ts : List T} {i : ℕ} {t : T} (h : ts[i]? = some t) :
    ∃ l₁ l₂, ts = l₁ ++ t :: l₂ ∧ l₁.length = i := by
  obtain ⟨hi, rfl⟩ := List.getElem?_eq_some_iff.1 h
  refine ⟨ts.take i, ts.drop (i + 1), ?_, List.length_take_of_le (Nat.le_of_lt hi)⟩
  rw [List.getElem_cons_drop, List.take_append_drop]

theorem isAsleep_iff {w : Worker α} : w.isAsleep = true ↔ w = .asleep := by
  cases w <;> simp [Worker.isAsleep]

theorem wakeStep_eq_some {s : NotifiedPool α} {i : ℕ} {pool : ThreadPool α} :
    s.wakeStep i = some pool ↔ ∃ l₁ l₂, s.pool.workers = l₁ ++ .asleep :: l₂ ∧ l₁.length = i ∧
      pool = { s.pool with workers := l₁ ++ .lock :: l₂ } := by
  unfold wakeStep
  constructor
  · intro h
    split_ifs at h with hasleep
    rw [Option.any_eq_true] at hasleep
    obtain ⟨w, hi, hw⟩ := hasleep
    obtain rfl := isAsleep_iff.1 hw
    obtain ⟨l₁, l₂, hworkers, rfl⟩ := getElem?_split hi
    refine ⟨l₁, l₂, hworkers, rfl, ?_⟩
    simpa [ThreadPool.step, hworkers, stepThread_append, ThreadPool.workerLoop] using h.symm
  · rintro ⟨l₁, l₂, hworkers, rfl, rfl⟩
    simp [ThreadPool.step, hworkers, stepThread_append, ThreadPool.workerLoop, Worker.isAsleep]

theorem worker_split {s pool : ThreadPool α} {i : ℕ} (h : s.step (.worker i) = some pool) :
    ∃ l₁ w l₂ s₁ w', s.workers = l₁ ++ w :: l₂ ∧ l₁.length = i ∧ ThreadPool.WorkerCase s w s₁ w' ∧
      pool = { s₁ with workers := l₁ ++ w' :: l₂ } := by
  obtain ⟨⟨s₁, workers⟩, hstep, rfl⟩ := Option.map_eq_some_iff.1 h
  obtain ⟨w, hi, -⟩ := Option.bind_eq_some_iff.1 hstep
  obtain ⟨l₁, l₂, hworkers, rfl⟩ := getElem?_split hi
  rw [hworkers, stepThread_append] at hstep
  obtain ⟨⟨s₂, w'⟩, hloop, heq⟩ := Option.map_eq_some_iff.1 hstep
  obtain ⟨w₁, rfl, hcase⟩ := ThreadPool.workerLoop_cases hloop
  cases heq
  exact ⟨l₁, w, l₂, s₁, w₁, hworkers, rfl, hcase, by simp⟩

theorem step_cases {s s' : NotifiedPool α} {l : Label α} (h : s.step l = some s') :
    Case s l s' := by
  cases l with
  | enqueue task =>
    cases h
    by_cases hstopping : s.pool.stopping = true
    · simpa [ThreadPool.enqueue, hstopping] using Case.refused (s := s) task hstopping
    · simpa [ThreadPool.enqueue, hstopping] using
        Case.accepted (s := s) task (Bool.eq_false_iff.2 hstopping)
  | notifyOne woken =>
    cases woken with
    | none =>
      obtain ⟨⟨hone, hawake⟩, ⟨⟩⟩ := Option.ite_none_right_eq_some.1 h
      exact .nobody hone (by simpa using hawake)
    | some i =>
      obtain ⟨hone, h⟩ := Option.ite_none_right_eq_some.1 h
      obtain ⟨pool, hwake, rfl⟩ := Option.map_eq_some_iff.1 h
      obtain ⟨l₁, l₂, hworkers, rfl, rfl⟩ := wakeStep_eq_some.1 hwake
      exact .notified l₁ l₂ hone hworkers
  | notifyAll =>
    obtain ⟨hall, ⟨⟩⟩ := Option.ite_none_right_eq_some.1 h
    exact .everybody hall
  | worker i =>
    obtain ⟨hawake, h⟩ := Option.ite_none_left_eq_some.1 h
    obtain ⟨pool, hstep, rfl⟩ := Option.map_eq_some_iff.1 h
    obtain ⟨l₁, w, l₂, s₁, w', hworkers, rfl, hcase, rfl⟩ := worker_split hstep
    refine .worker l₁ l₂ w w' s₁ hworkers ?_ hcase
    simpa [hworkers] using hawake
  | wake i =>
    obtain ⟨pool, hwake, rfl⟩ := Option.map_eq_some_iff.1 h
    obtain ⟨l₁, l₂, hworkers, rfl, rfl⟩ := wakeStep_eq_some.1 hwake
    exact .wake l₁ l₂ hworkers
  | stop =>
    obtain ⟨hall, h⟩ := Option.ite_none_left_eq_some.1 h
    obtain ⟨pool, hstep, rfl⟩ := Option.map_eq_some_iff.1 h
    exact .stop pool (by simpa using hall) (ThreadPool.stop_cases hstep)

/-! ### The pool without notifications -/

/-- The pool with the ledger of its tasks. -/
abbrev recorded (α : Type) (threadCount : ℕ) :=
  (ThreadPool.lts α threadCount).record {} ThreadPool.Ledger.write

/-- A step of the pool, in its ledger. -/
theorem run_recorded (threadCount : ℕ) {s s' : ThreadPool α} (m : ThreadPool.Ledger α)
    {l : ThreadPool.Label α} (h : s.step l = some s') :
    (recorded α threadCount).run (s, m) [l] = some (s', m.write s l) :=
  LTS.run_singleton (LTS.record_step_eq_some.2 ⟨h, rfl⟩)

/-- A worker that wakes is not in the ledger. -/
theorem run_wake {threadCount : ℕ} {s : NotifiedPool α} {pool : ThreadPool α} {i : ℕ}
    (m : ThreadPool.Ledger α) (h : s.wakeStep i = some pool) :
    (recorded α threadCount).run (s.pool, m) [.worker i] = some (pool, m) := by
  unfold wakeStep at h
  split_ifs at h with hasleep
  rw [Option.any_eq_true] at hasleep
  obtain ⟨w, hi, hw⟩ := hasleep
  obtain rfl := isAsleep_iff.1 hw
  have hrun := run_recorded threadCount m h
  simpa only [ThreadPool.Ledger.write, hi] using hrun

/-- `notify_all` is one step of each worker that sleeps. -/
theorem exists_run_woken {threadCount : ℕ} (s : ThreadPool α) (m : ThreadPool.Ledger α)
    (l₁ l₂ : List (Worker α)) : ∃ ls, (recorded α threadCount).run
      ({ s with workers := l₁ ++ l₂ }, m) ls =
        some ({ s with workers := l₁ ++ l₂.map Worker.woken }, m) := by
  induction l₂ generalizing l₁ with
  | nil => exact ⟨[], rfl⟩
  | cons w l₂ ih =>
    obtain ⟨ls, hrun⟩ := ih (l₁ ++ [w.woken])
    simp only [List.append_assoc, List.singleton_append] at hrun
    cases w with
    | asleep =>
      refine ⟨.worker l₁.length :: ls, ?_⟩
      have hwake : wakeStep { pool := { s with workers := l₁ ++ .asleep :: l₂ } } l₁.length =
          some { s with workers := l₁ ++ .lock :: l₂ } :=
        wakeStep_eq_some.2 ⟨l₁, l₂, rfl, rfl, rfl⟩
      exact LTS.run_append (run_wake m hwake) hrun
    | lock => exact ⟨ls, hrun⟩
    | running task => exact ⟨ls, hrun⟩
    | exited => exact ⟨ls, hrun⟩

/-- A step is a run of the pool. -/
theorem exists_run {threadCount : ℕ} {s s' : NotifiedPool α} {l : Label α}
    (m : ThreadPool.Ledger α) (h : s.step l = some s') :
    ∃ ls, (recorded α threadCount).run (s.pool, m) ls = some (s'.pool, write m s l) := by
  cases l with
  | enqueue task =>
    cases h
    exact ⟨_, run_recorded _ (l := .enqueue task) m rfl⟩
  | notifyOne woken =>
    cases woken with
    | none =>
      obtain ⟨-, ⟨⟩⟩ := Option.ite_none_right_eq_some.1 h
      exact ⟨[], rfl⟩
    | some i =>
      obtain ⟨-, h⟩ := Option.ite_none_right_eq_some.1 h
      obtain ⟨pool, hwake, rfl⟩ := Option.map_eq_some_iff.1 h
      exact ⟨_, run_wake m hwake⟩
  | notifyAll =>
    obtain ⟨-, ⟨⟩⟩ := Option.ite_none_right_eq_some.1 h
    exact exists_run_woken s.pool m [] s.pool.workers
  | worker i =>
    obtain ⟨-, h⟩ := Option.ite_none_left_eq_some.1 h
    obtain ⟨pool, hstep, rfl⟩ := Option.map_eq_some_iff.1 h
    exact ⟨_, run_recorded _ m hstep⟩
  | wake i =>
    obtain ⟨pool, hwake, rfl⟩ := Option.map_eq_some_iff.1 h
    exact ⟨_, run_wake m hwake⟩
  | stop =>
    obtain ⟨-, h⟩ := Option.ite_none_left_eq_some.1 h
    obtain ⟨pool, hstep, rfl⟩ := Option.map_eq_some_iff.1 h
    exact ⟨_, run_recorded _ m hstep⟩

/-- **The notified pool is a pool.**  Its runs do to the queue, the workers and the ledger what a
run of the pool does. -/
theorem reachable_pool {threadCount : ℕ} {s : NotifiedPool α} {m : ThreadPool.Ledger α}
    (h : ((lts α threadCount).record {} write).Reachable (s, m)) :
    (recorded α threadCount).Reachable (s.pool, m) := by
  refine h.refine (B := recorded α threadCount) (f := fun p => (p.1.pool, p.2)) rfl ?_
  rintro ⟨s, m⟩ l ⟨s', m'⟩ - hstep
  obtain ⟨hstep, rfl⟩ := LTS.record_step_eq_some.1 hstep
  exact exists_run m hstep

/-! ### No notification is lost -/

/-- The workers at `cv_`. -/
def waits (s : NotifiedPool α) : WaitSet where
  sleepers := s.pool.workers.countP (·.isAsleep)
  awake := s.pool.workers.countP (·.isAwake)
  one := s.one
  all := s.all.toNat
  ready := s.pool.tasks.length
  opened := s.pool.stopping

theorem countP_split (p : Worker α → Bool) (l₁ l₂ : List (Worker α)) (w : Worker α) :
    (l₁ ++ w :: l₂).countP p = (l₁ ++ l₂).countP p + (p w).toNat := by
  rw [List.perm_middle.countP_eq, List.countP_cons]
  cases p w <;> rfl

theorem countP_isAsleep_woken (l : List (Worker α)) :
    (l.map Worker.woken).countP (·.isAsleep) = 0 := by
  rw [List.countP_eq_zero]
  intro w hw
  obtain ⟨v, -, rfl⟩ := List.mem_map.1 hw
  cases v <;> exact Bool.false_ne_true

/-- A worker that wakes. -/
theorem waits_wake {s : NotifiedPool α} {l₁ l₂ : List (Worker α)}
    (hworkers : s.pool.workers = l₁ ++ .asleep :: l₂) (n : ℕ) :
    waits { s with pool := { s.pool with workers := l₁ ++ .lock :: l₂ }, one := n } =
      { s.waits with
        sleepers := s.waits.sleepers - 1
        awake := s.waits.awake + 1
        one := n } := by
  simp only [waits, hworkers, countP_split]
  rfl

theorem waits_step {s s' : NotifiedPool α} {l : Label α} (h : s.step l = some s') :
    WaitSet.Step s.waits s'.waits := by
  cases step_cases h with
  | refused task hstopping => exact .change 0 (Nat.le_refl _) rfl (Nat.le_refl _) rfl rfl rfl
  | accepted task hstopping =>
    refine .change 1 ?_ rfl (Nat.le_refl _) rfl rfl rfl
    simp [waits]
  | nobody hone hawake =>
    refine .nobody ?_
    simpa [waits, List.countP_eq_zero] using hawake
  | notified l₁ l₂ hone hworkers => exact .notifyOne (waits_wake hworkers _)
  | everybody hall => exact .nobody (countP_isAsleep_woken _)
  | worker l₁ l₂ w w' pool hworkers hawake hcase =>
    cases hcase with
    | sleep hstopping htasks =>
      refine .sleep hstopping (by simp [waits, htasks]) ?_
      simp only [waits, hworkers, countP_split]
      rfl
    | exit hstopping htasks =>
      refine .pass ?_ (.inr hstopping) ?_ rfl rfl rfl
      · simp only [waits, hworkers, countP_split]
        rfl
      · simp only [waits, hworkers, countP_split]
        rfl
    | dequeue task tasks htasks =>
      refine .pass ?_ (.inl ?_) ?_ rfl rfl rfl
      · simp only [waits, hworkers, countP_split]
        rfl
      · simp [waits, htasks]
      · simp only [waits, hworkers, countP_split]
        rfl
    | wake => cases hawake
    | done task =>
      refine .change 0 (Nat.le_refl _) rfl ?_ ?_ rfl rfl
      · simp only [waits, hworkers, countP_split]
        exact Nat.le_succ _
      · simp only [waits, hworkers, countP_split]
        rfl
  | wake l₁ l₂ hworkers => exact .wake (waits_wake hworkers _)
  | stop pool hall hcase =>
    cases hcase with
    | close hstop =>
      refine .opening ?_
      simp [waits, hstop]
    | join i hstop hi =>
      refine .change 0 (Nat.le_refl _) rfl (Nat.le_refl _) rfl ?_ rfl
      simp [waits, hstop, hall]
    | clear i hstop hi => exact .nobody rfl

theorem covers_of_reachable {threadCount : ℕ} {s : NotifiedPool α}
    (h : (lts α threadCount).Reachable s) : s.waits.Covers := by
  refine LTS.covers_of_step h ?_ fun s l s' _ => waits_step
  rw [lts, waits, List.countP_eq_zero]
  intro w hw
  rw [List.eq_of_mem_replicate hw]
  exact Bool.false_ne_true

/-- **No notification is lost.**  While a worker sleeps, either `stop` is about to notify all of
them, or the pool is not stopping and has no more tasks in its queue than workers about to test the
predicate and calls of `notify_one` that are due. -/
theorem no_lost_wakeup {threadCount : ℕ} {s : NotifiedPool α} (h : (lts α threadCount).Reachable s)
    (hasleep : .asleep ∈ s.pool.workers) :
    s.all = true ∨ s.pool.stopping = false ∧
      s.pool.tasks.length ≤ s.pool.workers.countP (·.isAwake) + s.one := by
  have hsleepers : 0 < s.waits.sleepers := List.countP_pos_iff.2 ⟨_, hasleep, rfl⟩
  refine (covers_of_reachable h hsleepers).imp_left fun hall => ?_
  by_contra hnone
  simp [waits, Bool.eq_false_iff.2 hnone] at hall

/-- Two workers that sleep, and a task. -/
def sleepRun : List (Label ℕ) := [.worker 0, .worker 1, .enqueue 7]

theorem no_lost_wakeup_sleep :
    ∃ s, (lts ℕ 2).Reachable s ∧ s.pool.tasks.length = 1 ∧ s.all = false ∧
      1 ≤ s.pool.workers.countP (·.isAwake) + s.one := by
  obtain ⟨s, hrun, hasleep, htasks, hall⟩ :
      ∃ s ∈ (lts ℕ 2).run (lts ℕ 2).init sleepRun,
        .asleep ∈ s.pool.workers ∧ s.pool.tasks.length = 1 ∧ s.all = false := by decide +kernel
  have h := LTS.reachable_of_run hrun
  rcases no_lost_wakeup h hasleep with hdue | ⟨-, hle⟩
  · rw [hall] at hdue
    cases hdue
  · exact ⟨s, h, htasks, hall, htasks ▸ hle⟩

/-! ### `stop` returns -/

/-- The steps of the workers and of the thread in `stop`: neither one of a thread in `enqueue` nor a
wakeup without a notification. -/
def Label.Owed : Label α → Prop
  | .notifyAll | .worker _ | .stop => True
  | .enqueue _ | .notifyOne _ | .wake _ => False

/-- How many steps are left to the thread that stops the pool. -/
def stopRank (s : ThreadPool α) : ℕ :=
  match s.stop with
  | .notCalled => s.workers.length + 4
  | .join i => s.workers.length - i + 1
  | .returned => 0

/-- How many steps are left once the pool is stopping. -/
def rank (s : NotifiedPool α) : ℕ :=
  2 * s.pool.tasks.length + (s.pool.workers.map Worker.rank).sum + s.one + s.all.toNat +
    stopRank s.pool

theorem rank_split (l₁ l₂ : List (Worker α)) (w : Worker α) :
    ((l₁ ++ w :: l₂).map Worker.rank).sum = ((l₁ ++ l₂).map Worker.rank).sum + w.rank := by
  rw [(List.perm_middle.map _).sum_eq, List.map_cons, List.sum_cons, Nat.add_comm]

theorem length_split {T : Type*} (l₁ l₂ : List T) (t : T) :
    (l₁ ++ t :: l₂).length = (l₁ ++ l₂).length + 1 := List.perm_middle.length_eq

theorem rank_woken_le (l : List (Worker α)) :
    ((l.map Worker.woken).map Worker.rank).sum ≤ (l.map Worker.rank).sum := by
  induction l with
  | nil => exact Nat.le_refl _
  | cons w l ih =>
    have hw : w.woken.rank ≤ w.rank := by cases w <;> simp [Worker.woken, Worker.rank]
    exact Nat.add_le_add hw ih

/-- Each step of a pool that is stopping is one step less, unless it is a refused task. -/
theorem rank_step {s s' : NotifiedPool α} {l : Label α} (hstopping : s.pool.stopping = true)
    (h : s.step l = some s') (hne : s' ≠ s ∨ l.Owed) : s'.rank < s.rank := by
  cases step_cases h with
  | refused task _ => exact hne.elim (absurd rfl) False.elim
  | accepted task hopen => rw [hstopping] at hopen; cases hopen
  | nobody hone _ =>
    simp only [rank]
    omega
  | notified l₁ l₂ hone hworkers =>
    simp only [rank, stopRank, hworkers, rank_split, length_split, Worker.rank]
    omega
  | everybody hall =>
    have hle := rank_woken_le s.pool.workers
    simp only [rank, stopRank, hall, List.length_map, Bool.toNat_true, Bool.toNat_false]
    omega
  | worker l₁ l₂ w w' pool hworkers hawake hcase =>
    cases hcase with
    | sleep hopen _ => rw [hstopping] at hopen; cases hopen
    | exit _ htasks =>
      simp only [rank, stopRank, hworkers, rank_split, length_split, Worker.rank]
      omega
    | dequeue task tasks htasks =>
      simp only [rank, stopRank, hworkers, htasks, rank_split, length_split, Worker.rank,
        List.length_cons]
      omega
    | wake => cases hawake
    | done task =>
      simp only [rank, stopRank, hworkers, rank_split, length_split, Worker.rank]
      omega
  | wake l₁ l₂ hworkers =>
    simp only [rank, stopRank, hworkers, rank_split, length_split, Worker.rank]
    omega
  | stop pool hall hcase =>
    cases hcase with
    | close hstop =>
      simp only [rank, stopRank, hstop, hall, decide_true, Bool.toNat_true, Bool.toNat_false]
      omega
    | join i hstop hi =>
      have hlt := (List.getElem?_eq_some_iff.1 hi).1
      simp only [rank, stopRank, hstop, hall, reduceCtorEq, decide_false, Bool.toNat_false]
      omega
    | clear i hstop hi =>
      simp only [rank, stopRank, hstop, hall, reduceCtorEq, decide_false, Bool.toNat_false,
        List.map_nil, List.sum_nil]
      omega

theorem stopping_step {s s' : NotifiedPool α} {l : Label α} (hstopping : s.pool.stopping = true)
    (h : s.step l = some s') : s'.pool.stopping = true := by
  cases step_cases h with
  | worker l₁ l₂ w w' pool hworkers hawake hcase => cases hcase <;> exact hstopping
  | stop pool hall hcase =>
    cases hcase with
    | close hstop => rfl
    | join i hstop hi => exact hstopping
    | clear i hstop hi => exact hstopping
  | _ => exact hstopping

/-- A worker of a pool that is stopping does not wait for the others. -/
theorem exists_workerLoop {s : ThreadPool α} {w : Worker α} (hstopping : s.stopping = true)
    (hw : w ≠ .exited) : ∃ p, s.workerLoop w = some p := by
  cases w with
  | lock =>
    cases htasks : s.tasks with
    | nil => simp [ThreadPool.workerLoop, hstopping, htasks]
    | cons task tasks => simp [ThreadPool.workerLoop, hstopping, htasks]
  | asleep => exact ⟨_, rfl⟩
  | running task => exact ⟨_, rfl⟩
  | exited => exact absurd rfl hw

/-- The worker that `stop` joins has been notified. -/
theorem isAsleep_eq_false {s : NotifiedPool α} {w : Worker α} (hstopping : s.pool.stopping = true)
    (hcovers : s.waits.Covers) (hall : s.all = false) (hw : w ∈ s.pool.workers) :
    w.isAsleep = false := by
  by_contra hasleep
  rw [Bool.not_eq_false] at hasleep
  have hsleepers : 0 < s.waits.sleepers := List.countP_pos_iff.2 ⟨w, hw, hasleep⟩
  rcases hcovers hsleepers with hdue | ⟨hopen, -⟩
  · simp [waits, hall] at hdue
  · exact Bool.false_ne_true (hopen.symm.trans hstopping)

/-- While `stop` has not returned, a thread can go on. -/
theorem exists_owed {s : NotifiedPool α} (hstopping : s.pool.stopping = true)
    (hcovers : s.waits.Covers) (hstop : s.pool.stop ≠ .returned) :
    ∃ l s', l.Owed ∧ s.step l = some s' := by
  cases hall : s.all with
  | true => exact ⟨.notifyAll, _, trivial, if_pos hall⟩
  | false =>
    have hnot : s.pool.stopStep.isSome → ∃ l s', Label.Owed l ∧ s.step l = some s' := by
      intro hsome
      obtain ⟨pool, hpool⟩ := Option.isSome_iff_exists.1 hsome
      refine ⟨.stop, { s with pool, all := decide (s.pool.stop = .notCalled) }, trivial, ?_⟩
      simp [step, hall, ThreadPool.step, hpool]
    cases hjoin : s.pool.stop with
    | notCalled => exact hnot (by simp [ThreadPool.stopStep, hjoin])
    | returned => exact absurd hjoin hstop
    | join i =>
      cases hi : s.pool.workers[i]? with
      | none => exact hnot (by simp [ThreadPool.stopStep, hjoin, hi])
      | some w =>
        by_cases hexited : w = .exited
        · subst hexited
          exact hnot (by simp [ThreadPool.stopStep, hjoin, hi])
        · -- the worker that is joined goes on
          have hawake := isAsleep_eq_false hstopping hcovers hall (List.mem_of_getElem? hi)
          obtain ⟨⟨pool, w'⟩, hloop⟩ := exists_workerLoop hstopping hexited
          obtain ⟨l₁, l₂, hworkers, rfl⟩ := getElem?_split hi
          refine ⟨.worker l₁.length,
            { s with pool := { pool with workers := l₁ ++ w'.toList ++ l₂ } }, trivial, ?_⟩
          rw [step, hi, Option.any_some, hawake, if_neg Bool.false_ne_true]
          simp [ThreadPool.step, hworkers, stepThread_append, hloop]

/-- **`stop` returns.**  Once its section has run, the threads come to its end whatever the order of
their steps: the workers and `stop` go on by themselves, they wait for no thread in `enqueue` and
for no wakeup without a notification.  A task that `enqueue` refuses changes nothing, so such calls
do not count, and there may be any number of them. -/
theorem stop_returns {threadCount : ℕ} {s : NotifiedPool α} (h : (lts α threadCount).Reachable s)
    (hstopping : s.pool.stopping = true) :
    (lts α threadCount).Inevitable Label.Owed (fun _ => True) (fun s => s.pool.stop = .returned)
      s := by
  refine LTS.inevitable_of_rank (fun s => s.pool.stopping = true ∧ s.waits.Covers) rank
    ?_ ?_ ⟨hstopping, covers_of_reachable h⟩
  · rintro s l s' ⟨hstopping, hcovers⟩ - hstep hne
    exact .inr ⟨⟨stopping_step hstopping hstep, hcovers.step (waits_step hstep)⟩,
      rank_step hstopping hstep (.inl hne)⟩
  · rintro s ⟨hstopping, hcovers⟩ hstop
    obtain ⟨l, s', hl, hstep⟩ := exists_owed hstopping hcovers hstop
    have hlt := rank_step hstopping hstep (.inr hl)
    exact ⟨l, s', hl, hstep, fun heq => Nat.lt_irrefl _ (heq ▸ hlt)⟩

theorem stop_returns_sleep :
    ∃ s, (lts ℕ 2).Reachable s ∧ .asleep ∈ s.pool.workers ∧
      (lts ℕ 2).Inevitable Label.Owed (fun _ => True) (fun s => s.pool.stop = .returned) s := by
  obtain ⟨s, hrun, hasleep, hstopping⟩ :
      ∃ s ∈ (lts ℕ 2).run (lts ℕ 2).init (sleepRun ++ [.stop]),
        .asleep ∈ s.pool.workers ∧ s.pool.stopping = true := by decide +kernel
  have h := LTS.reachable_of_run hrun
  exact ⟨s, h, hasleep, stop_returns h hstopping⟩

end NotifiedPool

end MiniServer
