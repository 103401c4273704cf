import MiniServer.Log.Logger
import MiniServer.Workers.ThreadPool

/-!
# Stopping the server

`HttpServer::stop` stops the workers before the logger.  `Service` is the pool and the logger side
by side: a task that runs on a worker logs its access records, any other thread may log lines, and
one thread is in `stop`.  A record of a task is queued before the workers are joined, so before
`Logger::shutdown` is called, and so it is in the file when `stop` returns.
-/

namespace MiniServer

/-- How far `HttpServer::stop` is. -/
inductive StopStage where
  /-- In `workers_.stop()`, or not called. -/
  | workers
  /-- In the join of `logger_.shutdown()`. -/
  | logger
  | done
  deriving DecidableEq, Repr

/-- The pool and the logger of a running server. -/
structure Service (α : Type) where
  pool : ThreadPool α
  logger : Logger
  stage : StopStage := .workers
  deriving DecidableEq, Repr

namespace Service

variable {α : Type}

/-- The steps of the threads. -/
inductive Label (α : Type) where
  | enqueue (task : α)
  | worker (i : ℕ)
  /-- The task on a worker calls `logger_.access`. -/
  | access (i : ℕ) (line : Bytes)
  /-- Another thread logs a line. -/
  | info (line : Bytes)
  | logWorker
  | flush (n : ℕ)
  /-- The next step of the thread in `HttpServer::stop`. -/
  | stop
  deriving DecidableEq, Repr

/-- After `logger_.init` and `workers_.start`. -/
def start (old : Bytes) (threadCount : ℕ) : Service α where
  pool := .start threadCount
  logger := { running := true, worker := some .lock, file := old }

/-- A step of `HttpServer::stop`. -/
def stopStep (s : Service α) : Option (Service α) :=
  match s.stage with
  | .workers =>
    if s.pool.stop = .returned then
      (s.logger.step .shutdown).map fun logger =>
        { s with logger, stage := if logger.joining then .logger else .done }
    else (s.pool.step .stop).map fun pool => { s with pool }
  | .logger => (s.logger.step .join).map fun logger => { s with logger, stage := .done }
  | .done => none

/-- A step of the server. -/
def step (s : Service α) : Label α → Option (Service α)
  | .enqueue task => (s.pool.step (.enqueue task)).map fun pool => { s with pool }
  | .worker i => (s.pool.step (.worker i)).map fun pool => { s with pool }
  | .access i line =>
    match s.pool.workers[i]? with
    | some (.running _) => (s.logger.step (.enqueue line)).map fun logger => { s with logger }
    | _ => none
  | .info line => (s.logger.step (.enqueue line)).map fun logger => { s with logger }
  | .logWorker => (s.logger.step .worker).map fun logger => { s with logger }
  | .flush n => (s.logger.step (.flush n)).map fun logger => { s with logger }
  | .stop => s.stopStep

/-- The server from its start on. -/
def lts (α : Type) (old : Bytes) (threadCount : ℕ) : LTS (Service α) (Label α) where
  init := start old threadCount
  step := step

/-- What is recorded of the pool, of the logger, and the access records of the tasks. -/
structure Ledger (α : Type) where
  pool : ThreadPool.Ledger α := {}
  log : Logger.Ledger := {}
  access : List Bytes := []
  deriving DecidableEq, Repr

/-- The ledger after a step. -/
def Ledger.write (m : Ledger α) (s : Service α) : Label α → Ledger α
  | .enqueue task => { m with pool := m.pool.write s.pool (.enqueue task) }
  | .worker i => { m with pool := m.pool.write s.pool (.worker i) }
  | .access _ line =>
    { m with log := m.log.write s.logger (.enqueue line), access := m.access ++ [line] }
  | .info line => { m with log := m.log.write s.logger (.enqueue line) }
  | .logWorker => { m with log := m.log.write s.logger .worker }
  | .flush n => { m with log := m.log.write s.logger (.flush n) }
  | .stop =>
    if s.stage = .workers ∧ s.pool.stop = .returned then
      { m with log := m.log.write s.logger .shutdown }
    else m

/-- The invariant of the server and its ledger. -/
structure Kept (old : Bytes) (threadCount : ℕ) (s : Service α) (m : Ledger α) : Prop where
  pool : ThreadPool.Runs threadCount s.pool m.pool
  log : Logger.Logs old s.logger m.log
  access : m.access.Sublist m.log.enqueued
  running : s.stage = .workers → s.logger.running = true ∧ s.logger.joining = false
  joined : s.stage ≠ .workers → s.pool.workers = []
  marked : s.stage ≠ .workers → m.access.Sublist (m.log.enqueued.take m.log.mark)
  joining : s.stage = .logger → s.logger.joining = true
  done : s.stage = .done → s.logger.worker = none ∧ m.access.Sublist m.log.written

variable {old : Bytes} {threadCount : ℕ}

theorem Kept.init : Kept old threadCount (start (α := α) old threadCount) {} where
  pool := .init threadCount
  log := (Logger.Logs.init old).step (l := .init) rfl
  access := .slnil
  running _ := ⟨rfl, rfl⟩
  joined h := absurd rfl h
  marked h := absurd rfl h
  joining h := by cases h
  done h := by cases h

/-- A step of the logger that its controlling thread does not take. -/
theorem Kept.quiet {s : Service α} {m : Ledger α} (h : Kept old threadCount s m) {logger : Logger}
    {log : Logger.Ledger} (hlogs : Logger.Logs old logger log)
    (hquiet : Logger.Quiet s.logger logger m.log log) :
    Kept old threadCount { s with logger } { m with log } where
  pool := h.pool
  log := hlogs
  access := h.access.trans hquiet.enqueued.sublist
  running hstage := by
    rw [show ({ s with logger } : Service α).logger = logger from rfl, hquiet.running,
      hquiet.joining]
    exact h.running hstage
  joined := h.joined
  marked hstage := by
    refine (h.marked hstage).trans ?_
    rw [← hquiet.mark]
    exact (hquiet.enqueued.take _).sublist
  joining hstage := hquiet.joining.trans (h.joining hstage)
  done hstage := by
    obtain ⟨hworker, haccess⟩ := h.done hstage
    exact ⟨hquiet.worker hworker, haccess.trans hquiet.written.sublist⟩

/-- A step of the pool. -/
theorem Kept.pool_step {s : Service α} {m : Ledger α} (h : Kept old threadCount s m)
    {pool : ThreadPool α} {ledger : ThreadPool.Ledger α}
    (hruns : ThreadPool.Runs threadCount pool ledger)
    (hworkers : s.stage ≠ .workers → pool.workers = []) :
    Kept old threadCount { s with pool } { m with pool := ledger } :=
  ⟨hruns, h.log, h.access, h.running, hworkers, h.marked, h.joining, h.done⟩

theorem Kept.access_step {s : Service α} {m : Ledger α} (h : Kept old threadCount s m) {i : ℕ}
    {task : α} (hi : s.pool.workers[i]? = some (.running task)) (line : Bytes) :
    Kept old threadCount { s with logger := s.logger.enqueue line }
      (m.write s (.access i line)) := by
  have hstage : s.stage = .workers := by
    by_contra hstage
    rw [h.joined hstage] at hi
    cases hi
  have hnot : s.stage ≠ .workers → ∀ {p : Prop}, p := fun hne => absurd hstage hne
  have hlog := h.log.step (l := .enqueue line) rfl
  refine ⟨h.pool, hlog, ?_, h.running, h.joined, fun hne => hnot hne, ?_, ?_⟩
  · exact h.access.append (List.Sublist.refl [line])
  · intro hlogger
    cases hstage.symm.trans hlogger
  · intro hdone
    cases hstage.symm.trans hdone

theorem Kept.stop_step {s s' : Service α} {m : Ledger α} (hpos : 1 ≤ threadCount)
    (h : Kept old threadCount s m) (hstep : s.stopStep = some s') :
    Kept old threadCount s' (m.write s .stop) := by
  unfold stopStep at hstep
  split at hstep
  · rename_i hstage
    obtain ⟨hrunning, hjoining⟩ := h.running hstage
    by_cases hreturned : s.pool.stop = .returned
    · rw [if_pos hreturned] at hstep
      obtain ⟨logger, hlogger, rfl⟩ := Option.map_eq_some_iff.1 hstep
      have hlog := h.log.step hlogger
      obtain rfl : { s.logger with running := false, joining := true } = logger := by
        simpa [Logger.step, Logger.shutdownStep, hrunning, hjoining] using hlogger
      simp only [Ledger.write, Logger.Ledger.write, hstage, hreturned, hrunning, and_self,
        if_true] at hlog ⊢
      -- every record of a task is queued before the call
      have hmarked : m.access.Sublist (m.log.enqueued.take m.log.enqueued.length) := by
        rw [List.take_length]
        exact h.access
      exact ⟨h.pool, hlog, h.access, by simp, fun _ => (h.pool.returned hreturned).1,
        fun _ => hmarked, fun _ => rfl, by simp⟩
    · rw [if_neg hreturned] at hstep
      obtain ⟨pool, hpool, rfl⟩ := Option.map_eq_some_iff.1 hstep
      simp only [Ledger.write, hreturned, and_false, if_false]
      exact h.pool_step (h.pool.stop_step hpos hpool) fun hne => absurd hstage hne
  · rename_i hstage
    have hne : s.stage ≠ .workers := by simp [hstage]
    obtain ⟨logger, hlogger, rfl⟩ := Option.map_eq_some_iff.1 hstep
    have hlog := h.log.step hlogger
    obtain ⟨-, hprefix⟩ := h.log.joined hlogger
    simp only [Ledger.write, hne, false_and, if_false]
    refine ⟨h.pool, hlog, h.access, by simp, fun _ => h.joined hne, fun _ => h.marked hne,
      by simp, fun _ => ⟨?_, (h.marked hne).trans hprefix.sublist⟩⟩
    have hcase := Logger.join_cases hlogger
    generalize hl : Logger.Label.join = l at hcase
    cases hcase with
    | join hjoining hworker => exact hworker
    | joined hjoining hworker => rfl
    | _ => cases hl
  · cases hstep

theorem Kept.step {s s' : Service α} {m : Ledger α} {l : Label α} (hpos : 1 ≤ threadCount)
    (h : Kept old threadCount s m) (hstep : s.step l = some s') :
    Kept old threadCount s' (m.write s l) := by
  cases l with
  | enqueue task =>
    cases hstep
    refine h.pool_step (h.pool.enqueue task) fun hne => ?_
    rw [← h.joined hne]
    unfold ThreadPool.enqueue
    split_ifs <;> rfl
  | worker i =>
    obtain ⟨pool, hpool, rfl⟩ := Option.map_eq_some_iff.1 hstep
    refine h.pool_step (h.pool.worker hpool) fun hne => ?_
    obtain ⟨l₁, w, l₂, _, _, hworkers, -⟩ := ThreadPool.worker_cases hpool
    rw [h.joined hne] at hworkers
    exact absurd hworkers.symm (by simp)
  | access i line =>
    simp only [Service.step] at hstep
    split at hstep
    · rename_i task hi
      cases hstep
      exact h.access_step hi line
    · cases hstep
  | info line =>
    cases hstep
    exact h.quiet (h.log.step (l := .enqueue line) rfl) (Logger.quiet_enqueue _ _ line)
  | logWorker =>
    obtain ⟨logger, hlogger, rfl⟩ := Option.map_eq_some_iff.1 hstep
    exact h.quiet (h.log.step hlogger) (Logger.quiet_worker _ hlogger)
  | flush n =>
    obtain ⟨logger, hlogger, rfl⟩ := Option.map_eq_some_iff.1 hstep
    exact h.quiet (h.log.step hlogger) (Logger.quiet_flush _ hlogger)
  | stop => exact h.stop_step hpos hstep

theorem kept_of_reachable (hpos : 1 ≤ threadCount) {s : Service α} {m : Ledger α}
    (h : ((lts α old threadCount).record {} Ledger.write).Reachable (s, m)) :
    Kept old threadCount s m := by
  refine LTS.record_invariant (I := Kept old threadCount) h .init ?_
  rintro s m l s' - hs hstep
  exact hs.step hpos hstep

/-- Every access record of a task that the pool ran is in the file when `stop` has returned. -/
theorem access_written (hpos : 1 ≤ threadCount) {s : Service α} {m : Ledger α}
    (h : ((lts α old threadCount).record {} Ledger.write).Reachable (s, m))
    (hdone : s.stage = .done) :
    s.logger.file = old ++ Logger.text m.log.written ∧ m.access.Sublist m.log.written := by
  have hs := kept_of_reachable hpos h
  obtain ⟨hworker, haccess⟩ := hs.done hdone
  have hbytes := hs.log.bytes
  unfold Logger.buffer at hbytes
  rw [hworker] at hbytes
  exact ⟨(List.append_nil _).symm.trans hbytes, haccess⟩

end Service

namespace Logger

/-- **The logger loses, duplicates and reorders nothing.**  In every run the file, the bytes that
the worker still has to write and the queue are together all the enqueued lines in order; when a
`shutdown` that stopped a worker returns, every line enqueued before the call is in the file; and
when `HttpServer::stop` has returned, so is every access record of a task that the pool ran. -/
theorem loses_nothing (α : Type) (old : Bytes) {threadCount : ℕ} (hpos : 1 ≤ threadCount) :
    (∀ s m, ((lts old).record {} Ledger.write).Reachable (s, m) →
      s.file ++ (s.buffer ++ text s.batch) ++ text s.queue = old ++ text m.enqueued ∧
      m.written ++ s.batch ++ s.queue = m.enqueued ∧
      ∀ s', s.step .join = some s' →
        s'.file = old ++ text m.written ∧ m.enqueued.take m.mark <+: m.written) ∧
    ∀ s m, ((Service.lts α old threadCount).record {} Service.Ledger.write).Reachable (s, m) →
      s.stage = .done →
        s.logger.file = old ++ text m.log.written ∧ m.access.Sublist m.log.written := by
  refine ⟨fun s m h => ?_, fun s m h hdone => Service.access_written hpos h hdone⟩
  have hs := logs_of_reachable h
  refine ⟨?_, hs.lines, fun s' hstep => hs.joined hstep⟩
  rw [← hs.lines, text_append, text_append, ← List.append_assoc s.file, hs.bytes]
  simp only [List.append_assoc]

/-- A line before `init` and one before `shutdown`, up to the exit of the worker. -/
def twoLines : List Label :=
  [.enqueue [1], .init, .worker, .worker, .flush 1, .enqueue [2], .shutdown, .worker, .worker,
    .worker, .worker, .worker]

/-- One task logs one record before the server is stopped. -/
def oneAccess : List (Service.Label ℕ) :=
  [.enqueue 0, .worker 0, .access 0 [7], .stop, .worker 0, .worker 0, .stop, .stop, .stop,
    .logWorker, .logWorker, .logWorker, .logWorker, .stop]

theorem loses_nothing_sample :
    (∃ s m s', ((lts []).record {} Ledger.write).Reachable (s, m) ∧ s.step .join = some s' ∧
      s'.file = text [[1], [2]]) ∧
    ∃ s m, ((Service.lts ℕ [] 1).record {} Service.Ledger.write).Reachable (s, m) ∧
      s.stage = .done ∧ m.access = [[7]] ∧ m.access.Sublist m.log.written := by
  obtain ⟨⟨s, m⟩, hrun, ⟨s', hjoin⟩, hwritten⟩ :
      ∃ p ∈ ((lts []).record {} Ledger.write).run ((lts []).record {} Ledger.write).init twoLines,
        (∃ s' ∈ p.1.step .join, True) ∧ p.2.written = [[1], [2]] := by decide +kernel
  obtain ⟨⟨t, n⟩, hrun', hdone, haccess⟩ :
      ∃ p ∈ ((Service.lts ℕ [] 1).record {} Service.Ledger.write).run
          ((Service.lts ℕ [] 1).record {} Service.Ledger.write).init oneAccess,
        p.1.stage = .done ∧ p.2.access = [[7]] := by decide +kernel
  have h := LTS.reachable_of_run hrun
  have h' := LTS.reachable_of_run hrun'
  obtain ⟨hlogger, hservice⟩ := loses_nothing ℕ [] (Nat.le_refl 1)
  refine ⟨⟨s, m, s', h, hjoin.1, ?_⟩, t, n, h', hdone, haccess, (hservice t n h' hdone).2⟩
  obtain ⟨-, -, hfile⟩ := hlogger s m h
  rw [(hfile s' hjoin.1).1, show m.written = [[1], [2]] from hwritten]
  rfl

end Logger

end MiniServer
