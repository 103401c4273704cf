import Mathlib.Data.Multiset.AddSub
import MiniServer.LTS.Record
import MiniServer.LTS.Threads

/-!
# The thread pool

The workers take tasks off one queue.  A section of `mutex_` is one step, and so is the run of a
task; a thread that sleeps in `cv_.wait` may wake at any time and tests the predicate again, so no
property below rests on a notification.

* `Runs` : what has been dequeued, with the queue behind it, is what `enqueue` accepted before the
  section of `stop`, in that order (`fifo`); every dequeued task is executed or runs on one worker
  (`once`).
* `runs_each_task_once` : when `stop` has returned, exactly these tasks are executed.
-/

namespace MiniServer

/-- A worker thread in `ThreadPool::workerLoop`. -/
inductive Worker (α : Type) where
  /-- About to take `mutex_` and to test the predicate of the wait. -/
  | lock
  /-- In `cv_.wait`. -/
  | asleep
  | running (task : α)
  /-- `workerLoop` has returned. -/
  | exited
  deriving DecidableEq, Repr

/-- The thread in `ThreadPool::stop`. -/
inductive Stop where
  | notCalled
  /-- Joining the worker with this index. -/
  | join (i : ℕ)
  | returned
  deriving DecidableEq, Repr

/-- `class ThreadPool` with its threads. -/
structure ThreadPool (α : Type) where
  stopping : Bool := false
  tasks : List α := []
  workers : List (Worker α)
  stop : Stop := .notCalled
  deriving DecidableEq, Repr

namespace ThreadPool

variable {α : Type}

/-- The steps of the threads. -/
inductive Label (α : Type) where
  /-- A call of `enqueue` by any thread. -/
  | enqueue (task : α)
  /-- The next step of a worker. -/
  | worker (i : ℕ)
  /-- The next step of the thread that calls `stop`. -/
  | stop
  deriving DecidableEq, Repr

/-- `ThreadPool::start`. -/
def start (threadCount : ℕ) : ThreadPool α where
  workers := List.replicate threadCount .lock

/-- The section of `ThreadPool::enqueue`. -/
def enqueue (s : ThreadPool α) (task : α) : ThreadPool α :=
  if s.stopping then s else { s with tasks := s.tasks ++ [task] }

/-- A step of `ThreadPool::workerLoop`. -/
def workerLoop (s : ThreadPool α) : Worker α → Option (ThreadPool α × Option (Worker α))
  | .lock =>
    if !(s.stopping || !s.tasks.isEmpty) then some (s, some .asleep)
    else if s.stopping && s.tasks.isEmpty then some (s, some .exited)
    else
      match s.tasks with
      | [] => none
      | task :: tasks => some ({ s with tasks }, some (.running task))
  | .asleep => some (s, some .lock)
  | .running _ => some (s, some .lock)
  | .exited => none

/-- A step of `ThreadPool::stop`: the section, the joins in order, `workers_.clear()`. -/
def stopStep (s : ThreadPool α) : Option (ThreadPool α) :=
  match s.stop with
  | .notCalled => some { s with stopping := true, stop := .join 0 }
  | .join i =>
    match s.workers[i]? with
    | none => some { s with workers := [], stop := .returned }
    | some .exited => some { s with stop := .join (i + 1) }
    | some _ => none
  | .returned => none

/-- A step of the pool. -/
def step (s : ThreadPool α) : Label α → Option (ThreadPool α)
  | .enqueue task => some (s.enqueue task)
  | .worker i => (stepThread s.workerLoop s.workers i).map fun (s, workers) => { s with workers }
  | .stop => s.stopStep

/-- The pool from `start` on. -/
def lts (α : Type) (threadCount : ℕ) : LTS (ThreadPool α) (Label α) where
  init := start threadCount
  step := step

/-! ### What is recorded of a run -/

/-- The tasks in the order of their sections, and of their ends. -/
structure Ledger (α : Type) where
  /-- Passed to `enqueue` before the section of `stop`. -/
  before : List α := []
  /-- Passed to `enqueue` afterwards. -/
  after : List α := []
  dequeued : List α := []
  executed : List α := []
  deriving DecidableEq, Repr

/-- The ledger after a step. -/
def Ledger.write (m : Ledger α) (s : ThreadPool α) : Label α → Ledger α
  | .enqueue task =>
    if s.stop = .notCalled then { m with before := m.before ++ [task] }
    else { m with after := m.after ++ [task] }
  | .worker i =>
    match s.workers[i]? with
    | some .lock => { m with dequeued := m.dequeued ++ s.tasks.take 1 }
    | some (.running task) => { m with executed := m.executed ++ [task] }
    | _ => m
  | .stop => m

/-- The tasks that run. -/
def running (s : ThreadPool α) : List α :=
  s.workers.filterMap fun
    | .running task => some task
    | _ => none

/-- The invariant of the pool and its ledger. -/
structure Runs (threadCount : ℕ) (s : ThreadPool α) (m : Ledger α) : Prop where
  fifo : m.dequeued ++ s.tasks = m.before
  once : (m.executed ++ s.running).Perm m.dequeued
  stopping : s.stopping = true ↔ s.stop ≠ .notCalled
  drained : .exited ∈ s.workers → s.stopping = true ∧ s.tasks = []
  joined : ∀ i, s.stop = .join i → ∀ w ∈ s.workers.take i, w = .exited
  size : s.stop ≠ .returned → s.workers.length = threadCount
  returned : s.stop = .returned → s.workers = [] ∧ s.tasks = []

/-! ### The steps, case by case -/

/-- What a worker does in a step. -/
inductive WorkerCase (s : ThreadPool α) : Worker α → ThreadPool α → Worker α → Prop
  | sleep : s.stopping = false → s.tasks = [] → WorkerCase s .lock s .asleep
  | exit : s.stopping = true → s.tasks = [] → WorkerCase s .lock s .exited
  | dequeue (task : α) (tasks : List α) : s.tasks = task :: tasks →
      WorkerCase s .lock { s with tasks } (.running task)
  | wake : WorkerCase s .asleep s .lock
  | done (task : α) : WorkerCase s (.running task) s .lock

theorem workerLoop_cases {s s₁ : ThreadPool α} {w : Worker α} {w' : Option (Worker α)}
    (h : s.workerLoop w = some (s₁, w')) : ∃ w₁, w' = some w₁ ∧ WorkerCase s w s₁ w₁ := by
  cases w with
  | lock =>
    simp only [workerLoop] at h
    split_ifs at h with hwait hexit
    · simp only [Bool.not_eq_true', Bool.or_eq_false_iff, Bool.not_eq_false',
        List.isEmpty_iff] at hwait
      cases h
      exact ⟨_, rfl, .sleep hwait.1 hwait.2⟩
    · simp only [Bool.and_eq_true, List.isEmpty_iff] at hexit
      cases h
      exact ⟨_, rfl, .exit hexit.1 hexit.2⟩
    · split at h
      · cases h
      · rename_i task tasks htasks
        cases h
        exact ⟨_, rfl, .dequeue task tasks htasks⟩
  | asleep =>
    cases h
    exact ⟨_, rfl, .wake⟩
  | running task =>
    cases h
    exact ⟨_, rfl, .done task⟩
  | exited => cases h

theorem worker_cases {s s' : ThreadPool α} {i : ℕ} (h : s.step (.worker i) = some s') :
    ∃ l₁ w l₂ s₁ w', s.workers = l₁ ++ w :: l₂ ∧ s.workers[i]? = some w ∧ WorkerCase s w s₁ w' ∧
      s' = { s₁ with workers := l₁ ++ w' :: l₂ } := by
  obtain ⟨⟨s₁, workers⟩, hstep, rfl⟩ := Option.map_eq_some_iff.1 h
  obtain ⟨l₁, w, l₂, w', hworkers, hi, hloop, rfl⟩ := stepThread_eq_some hstep
  obtain ⟨w₁, rfl, hcase⟩ := workerLoop_cases hloop
  exact ⟨l₁, w, l₂, s₁, w₁, hworkers, hi, hcase, by simp⟩

/-- What the thread that stops the pool does in a step. -/
inductive StopCase (s : ThreadPool α) : ThreadPool α → Prop
  | close : s.stop = .notCalled → StopCase s { s with stopping := true, stop := .join 0 }
  | join (i : ℕ) : s.stop = .join i → s.workers[i]? = some .exited →
      StopCase s { s with stop := .join (i + 1) }
  | clear (i : ℕ) : s.stop = .join i → s.workers.length ≤ i →
      StopCase s { s with workers := [], stop := .returned }

theorem stop_cases {s s' : ThreadPool α} (h : s.step .stop = some s') : StopCase s s' := by
  change s.stopStep = some s' at h
  unfold stopStep at h
  split at h
  · rename_i hstop
    cases h
    exact .close hstop
  · rename_i i hstop
    split at h
    · rename_i hi
      cases h
      exact .clear i hstop (List.getElem?_eq_none_iff.1 hi)
    · rename_i hi
      cases h
      exact .join i hstop hi
    · cases h
  · cases h

/-! ### The invariant -/

theorem Runs.init (threadCount : ℕ) : Runs threadCount (start (α := α) threadCount) {} where
  fifo := rfl
  once := by
    have hnone : ∀ n, (start (α := α) n).running = [] := by
      intro n
      simp [running, start]
    rw [hnone]
    exact .nil
  stopping := ⟨nofun, fun h => absurd rfl h⟩
  drained h := by cases List.eq_of_mem_replicate h
  joined i h := by cases h
  size _ := List.length_replicate
  returned h := by cases h

theorem Runs.enqueue {threadCount : ℕ} {s : ThreadPool α} {m : Ledger α}
    (h : Runs threadCount s m) (task : α) :
    Runs threadCount (s.enqueue task) (m.write s (.enqueue task)) := by
  unfold ThreadPool.enqueue
  simp only [Ledger.write]
  by_cases hstopping : s.stopping = true
  · rw [if_pos hstopping, if_neg (h.stopping.1 hstopping)]
    exact ⟨h.fifo, h.once, h.stopping, h.drained, h.joined, h.size, h.returned⟩
  · have hstop : s.stop = .notCalled := not_ne_iff.1 fun hstop => hstopping (h.stopping.2 hstop)
    rw [if_neg hstopping, if_pos hstop]
    constructor
    case fifo => exact (List.append_assoc _ _ _).symm.trans (congrArg (· ++ [task]) h.fifo)
    case once => exact h.once
    case stopping => exact h.stopping
    case drained => exact fun hexited => absurd (h.drained hexited).1 hstopping
    case joined => exact h.joined
    case size => exact h.size
    case returned =>
      intro hreturned
      rw [hstop] at hreturned
      cases hreturned

/-- The running tasks when one worker is put first. -/
theorem running_perm {s : ThreadPool α} {l₁ l₂ : List (Worker α)} {w : Worker α}
    (h : s.workers = l₁ ++ w :: l₂) :
    s.running.Perm (running { s with workers := w :: (l₁ ++ l₂) }) := by
  unfold running
  rw [h]
  exact List.perm_middle.filterMap _

section Worker

variable {threadCount i : ℕ} {s s₁ : ThreadPool α} {m : Ledger α} {l₁ l₂ : List (Worker α)}
variable {w w' : Worker α}

theorem Runs.once_worker (h : Runs threadCount s m) (hworkers : s.workers = l₁ ++ w :: l₂)
    (hi : s.workers[i]? = some w) (hcase : WorkerCase s w s₁ w') :
    ((m.write s (.worker i)).executed ++ running { s₁ with workers := l₁ ++ w' :: l₂ }).Perm
      (m.write s (.worker i)).dequeued := by
  have hbefore := running_perm hworkers
  have hafter := running_perm (s := { s₁ with workers := l₁ ++ w' :: l₂ }) rfl
  have honce := (hbefore.append_left m.executed).symm.trans h.once
  refine (hafter.append_left _).trans ?_
  simp only [Ledger.write, hi]
  cases hcase with
  | sleep hstopping htasks =>
    rw [htasks, List.take_nil, List.append_nil]
    exact honce
  | exit hstopping htasks =>
    rw [htasks, List.take_nil, List.append_nil]
    exact honce
  | dequeue task tasks htasks =>
    -- the task leaves the queue for the worker
    simp only [htasks, List.take_succ_cons, List.take_zero]
    refine List.perm_middle.trans (.trans ?_ (List.perm_append_singleton task m.dequeued).symm)
    exact honce.cons task
  | wake => exact honce
  | done task =>
    refine .trans ?_ honce
    rw [List.append_assoc]
    exact .refl _

theorem Runs.drained_worker (h : Runs threadCount s m) (hworkers : s.workers = l₁ ++ w :: l₂)
    (hcase : WorkerCase s w s₁ w') (hexited : .exited ∈ l₁ ++ w' :: l₂) :
    s₁.stopping = true ∧ s₁.tasks = [] := by
  have hold : w' ≠ .exited → s.stopping = true ∧ s.tasks = [] := by
    intro hw'
    refine h.drained ?_
    rw [hworkers]
    simp only [List.mem_append, List.mem_cons] at hexited ⊢
    rcases hexited with hexited | heq | hexited
    · exact .inl hexited
    · exact absurd heq.symm hw'
    · exact .inr (.inr hexited)
  cases hcase with
  | sleep _ _ => exact hold (by simp)
  | exit hstopping htasks => exact ⟨hstopping, htasks⟩
  | dequeue task tasks htasks =>
    -- nothing is taken after the first worker has returned
    have hempty := (hold (by simp)).2
    rw [htasks] at hempty
    cases hempty
  | wake => exact hold (by simp)
  | done task => exact hold (by simp)

/-- A worker that is joined takes no step. -/
theorem Runs.joined_worker (h : Runs threadCount s m) (hworkers : s.workers = l₁ ++ w :: l₂)
    (hw : w ≠ .exited) {j : ℕ} (hj : s.stop = .join j) :
    ∀ v ∈ (l₁ ++ w' :: l₂).take j, v = .exited := by
  intro v hv
  have hlt : j ≤ l₁.length := by
    by_contra hlt
    refine hw (h.joined j hj w ?_)
    rw [hworkers, List.mem_take_iff_getElem]
    exact ⟨l₁.length, by simp; omega, by simp⟩
  refine h.joined j hj v ?_
  rw [List.take_append_of_le_length hlt] at hv
  rw [hworkers, List.take_append_of_le_length hlt]
  exact hv

end Worker

theorem Runs.worker {threadCount : ℕ} {s s' : ThreadPool α} {m : Ledger α} {i : ℕ}
    (h : Runs threadCount s m) (hstep : s.step (.worker i) = some s') :
    Runs threadCount s' (m.write s (.worker i)) := by
  obtain ⟨l₁, w, l₂, s₁, w', hworkers, hi, hcase, rfl⟩ := worker_cases hstep
  have hmem : w ∈ s.workers := List.mem_of_getElem? hi
  have hnot : s.stop ≠ .returned := by
    intro hreturned
    rw [(h.returned hreturned).1] at hmem
    cases hmem
  have hsize : (l₁ ++ w' :: l₂).length = s.workers.length := by
    rw [hworkers]
    simp
  have hkept : s₁.stopping = s.stopping ∧ s₁.stop = s.stop := by cases hcase <;> exact ⟨rfl, rfl⟩
  constructor
  case fifo =>
    simp only [Ledger.write, hi]
    cases hcase with
    | sleep hstopping htasks => simpa [htasks] using h.fifo
    | exit hstopping htasks => simpa [htasks] using h.fifo
    | dequeue task tasks htasks => simpa [htasks] using h.fifo
    | wake => exact h.fifo
    | done task => exact h.fifo
  case once => exact h.once_worker hworkers hi hcase
  case stopping =>
    rw [show ({ s₁ with workers := l₁ ++ w' :: l₂ } : ThreadPool α).stopping = s.stopping
      from hkept.1, show ({ s₁ with workers := l₁ ++ w' :: l₂ } : ThreadPool α).stop = s.stop
      from hkept.2]
    exact h.stopping
  case drained =>
    intro hexited
    have hdrained := h.drained_worker hworkers hcase hexited
    exact hdrained
  case joined =>
    intro j hj
    refine h.joined_worker hworkers ?_ (hkept.2.symm.trans hj)
    rintro rfl
    cases hcase
  case size => exact fun _ => hsize.trans (h.size hnot)
  case returned => exact fun hreturned => absurd (hkept.2.symm.trans hreturned) hnot

theorem Runs.stop_step {threadCount : ℕ} {s s' : ThreadPool α} {m : Ledger α}
    (hpos : 1 ≤ threadCount) (h : Runs threadCount s m) (hstep : s.step .stop = some s') :
    Runs threadCount s' m := by
  cases stop_cases hstep with
  | close hstop =>
    refine ⟨h.fifo, h.once, ⟨nofun, fun _ => rfl⟩, fun hexited => ⟨rfl, (h.drained hexited).2⟩, ?_,
      fun _ => h.size (by rw [hstop]; nofun), nofun⟩
    rintro i ⟨⟩ w hw
    cases hw
  | join i hstop hi =>
    refine ⟨h.fifo, h.once, ?_, h.drained, ?_, fun _ => h.size (by rw [hstop]; nofun), nofun⟩
    · have hstopping := h.stopping
      rw [hstop] at hstopping
      exact ⟨nofun, fun _ => hstopping.2 nofun⟩
    · rintro j ⟨⟩ w hw
      rw [List.take_add_one, hi, List.mem_append] at hw
      rcases hw with hw | hw
      · exact h.joined i hstop w hw
      · exact List.mem_singleton.1 hw
  | clear i hstop hi =>
    -- all workers are joined, so none has a task
    have hexited : ∀ w ∈ s.workers, w = .exited := by
      have hall := h.joined i hstop
      rwa [List.take_of_length_le hi] at hall
    have hlength := h.size (by rw [hstop]; nofun)
    have hmem : .exited ∈ s.workers := by
      obtain ⟨w, hw⟩ := List.exists_mem_of_length_pos (show 0 < s.workers.length by omega)
      exact hexited w hw ▸ hw
    have hnone : s.running = [] := by
      unfold running
      rw [List.filterMap_eq_nil_iff]
      intro w hw
      rw [hexited w hw]
    refine ⟨h.fifo, ?_, ?_, nofun, nofun, fun hreturned => absurd rfl hreturned,
      fun _ => ⟨rfl, (h.drained hmem).2⟩⟩
    · have honce := h.once
      rw [hnone] at honce
      exact honce
    · have hstopping := h.stopping
      rw [hstop] at hstopping
      exact ⟨nofun, fun _ => hstopping.2 nofun⟩

theorem runs_of_reachable {threadCount : ℕ} (hpos : 1 ≤ threadCount) {s : ThreadPool α}
    {m : Ledger α} (h : ((lts α threadCount).record {} Ledger.write).Reachable (s, m)) :
    Runs threadCount s m := by
  refine LTS.record_invariant (I := Runs threadCount) h (.init threadCount) ?_
  rintro s m l s' - hs hstep
  cases l with
  | enqueue task =>
    cases hstep
    exact hs.enqueue task
  | worker i => exact hs.worker hstep
  | stop => exact hs.stop_step hpos hstep

/-- **The pool runs each accepted task exactly once.**  In every run of at least one worker the
tasks leave the queue in the order in which `enqueue` took the mutex, those that took it after the
section of `stop` never enter it, each of the others is dequeued at most once and executed by one
worker, no worker exits while one is queued, and when `stop` has returned all of them are
executed. -/
theorem runs_each_task_once {threadCount : ℕ} (hpos : 1 ≤ threadCount) {s : ThreadPool α}
    {m : Ledger α} (h : ((lts α threadCount).record {} Ledger.write).Reachable (s, m)) :
    m.dequeued ++ s.tasks = m.before ∧ (m.executed ++ s.running).Perm m.dequeued ∧
      (.exited ∈ s.workers → s.stop ≠ .notCalled ∧ s.tasks = []) ∧
      (s.stop = .returned → m.executed.Perm m.before) := by
  have hs := runs_of_reachable hpos h
  refine ⟨hs.fifo, hs.once, fun hexited => ?_, fun hreturned => ?_⟩
  · obtain ⟨hstopping, htasks⟩ := hs.drained hexited
    exact ⟨hs.stopping.1 hstopping, htasks⟩
  · obtain ⟨hworkers, htasks⟩ := hs.returned hreturned
    have honce := hs.once
    rw [running, hworkers, List.filterMap_nil, List.append_nil] at honce
    rw [← hs.fifo, htasks, List.append_nil]
    exact honce

/-- Two workers, a task before `stop` and one after it. -/
def stopRun : List (Label ℕ) :=
  [.worker 0, .enqueue 7, .worker 1, .stop, .enqueue 8, .worker 1, .worker 1, .worker 0, .worker 0,
    .stop, .stop, .stop]

theorem runs_each_task_once_stop :
    ∃ s m, ((lts ℕ 2).record {} Ledger.write).Reachable (s, m) ∧ s.stop = .returned ∧
      m.after = [8] ∧ m.executed.Perm [7] := by
  obtain ⟨⟨s, m⟩, hrun, hstop, hbefore, hafter⟩ :
      ∃ p ∈ ((lts ℕ 2).record {} Ledger.write).run ((lts ℕ 2).record {} Ledger.write).init stopRun,
        p.1.stop = .returned ∧ p.2.before = [7] ∧ p.2.after = [8] := by decide +kernel
  have h := LTS.reachable_of_run hrun
  obtain ⟨-, -, -, hexecuted⟩ := runs_each_task_once (by decide) h
  exact ⟨s, m, h, hstop, hafter, hbefore ▸ hexecuted hstop⟩

end ThreadPool

end MiniServer
