import Mathlib.Algebra.GroupWithZero.Nat
import Mathlib.Algebra.BigOperators.Group.List.Basic
import MiniServer.LTS.Progress
import MiniServer.LTS.WaitSet
import MiniServer.Log.Logger

/-!
# The notifications of the logger

`Logger` lets its worker wake at any time.  `NotifiedLogger` has the calls of `notify_one` and
`notify_all` as steps of their own, and its runs are runs of `Logger` (`reachable_log`).

No notification is lost, so `shutdown` returns with the lines in the file unless other threads go on
to log for ever (`shutdown_returns`).  Opening the file and writing to it succeed; a line is what
`enqueue` takes, and with a line feed in it, it is more than one line of the file.
-/

namespace MiniServer

/-- The logger with its condition variable. -/
structure NotifiedLogger where
  log : Logger
  /-- Threads in `enqueue`, between the section and `notify_one`. -/
  one : ℕ := 0
  /-- The controlling thread is in `shutdown`, between the section and `notify_all`. -/
  all : Bool := false
  deriving DecidableEq, Repr

namespace NotifiedLogger

/-- The steps of the threads. -/
inductive Label where
  /-- The section of `enqueue`, in any thread, with the line it has made. -/
  | enqueue (line : Bytes)
  | notifyOne
  | notifyAll
  /-- A call of `init`. -/
  | init
  /-- A call of `shutdown`, up to the end of its section. -/
  | shutdown
  /-- The `join` in `shutdown` returns. -/
  | join
  /-- The next step of the worker, when it does not sleep. -/
  | worker
  /-- The worker returns from `cv_.wait` without a notification. -/
  | wake
  /-- The stream hands some bytes of its buffer to the file. -/
  | flush (n : ℕ)
  deriving DecidableEq, Repr

/-- The logger after a notification. -/
def woken (s : Logger) : Logger :=
  if s.worker = some .asleep then { s with worker := some .lock } else s

/-- A step of the controlling thread, which notifies before it goes on. -/
def controlStep (s : NotifiedLogger) (l : Logger.Label) : Option NotifiedLogger :=
  if s.all then none else (s.log.step l).map fun log => { s with log }

/-- A step of the logger. -/
def step (s : NotifiedLogger) : Label → Option NotifiedLogger
  | .enqueue line => some { s with log := s.log.enqueue line, one := s.one + 1 }
  | .notifyOne => if 0 < s.one then some { s with log := woken s.log, one := s.one - 1 } else none
  | .notifyAll => if s.all then some { s with log := woken s.log, all := false } else none
  | .init => s.controlStep .init
  | .shutdown =>
    -- a `shutdown` that finds no worker running returns without a notification
    (s.controlStep .shutdown).map fun s' => { s' with all := s'.log.joining }
  | .join => s.controlStep .join
  | .worker =>
    if s.log.worker = some .asleep then none else s.log.workerStep.map fun log => { s with log }
  | .wake =>
    if s.log.worker = some .asleep then s.log.workerStep.map fun log => { s with log } else none
  | .flush n => (s.log.flushStep n).map fun log => { s with log }

/-- The logger with a file that may exist already. -/
def lts (old : Bytes) : LTS NotifiedLogger Label where
  init := { log := { file := old } }
  step := step

/-- The ledger of the logger after a step. -/
def write (m : Logger.Ledger) (s : NotifiedLogger) : Label → Logger.Ledger
  | .enqueue line => m.write s.log (.enqueue line)
  | .shutdown => m.write s.log .shutdown
  | .worker => m.write s.log .worker
  | _ => m

/-! ### The logger without notifications -/

/-- The logger with the ledger of its lines. -/
abbrev recorded (old : Bytes) := (Logger.lts old).record {} Logger.Ledger.write

/-- A step of the logger, in its ledger. -/
theorem run_recorded (old : Bytes) {s s' : Logger} (m : Logger.Ledger) {l : Logger.Label}
    (h : s.step l = some s') : (recorded old).run (s, m) [l] = some (s', m.write s l) :=
  LTS.run_singleton (LTS.record_step_eq_some.2 ⟨h, rfl⟩)

/-- A notification is a step of the worker, if it sleeps. -/
theorem exists_run_woken {old : Bytes} (s : Logger) (m : Logger.Ledger) :
    ∃ ls, (recorded old).run (s, m) ls = some (woken s, m) := by
  by_cases hasleep : s.worker = some .asleep
  · have hstep : s.step .worker = some (woken s) := by
      simp [Logger.step, Logger.workerStep, woken, hasleep]
    have hrun := run_recorded old m hstep
    simp only [Logger.Ledger.write, hasleep] at hrun
    exact ⟨_, hrun⟩
  · rw [woken, if_neg hasleep]
    exact ⟨[], rfl⟩

theorem controlStep_eq_some {s s' : NotifiedLogger} {l : Logger.Label}
    (h : s.controlStep l = some s') :
    s.all = false ∧ ∃ log, s.log.step l = some log ∧ s' = { s with log } := by
  obtain ⟨hall, h⟩ := Option.ite_none_left_eq_some.1 h
  obtain ⟨log, hstep, rfl⟩ := Option.map_eq_some_iff.1 h
  exact ⟨by simpa using hall, log, hstep, rfl⟩

/-- A step is a run of the logger. -/
theorem exists_run {old : Bytes} {s s' : NotifiedLogger} {l : Label} (m : Logger.Ledger)
    (h : s.step l = some s') :
    ∃ ls, (recorded old).run (s.log, m) ls = some (s'.log, write m s l) := by
  cases l with
  | enqueue line =>
    cases h
    exact ⟨_, run_recorded _ (l := .enqueue line) m rfl⟩
  | notifyOne =>
    obtain ⟨-, ⟨⟩⟩ := Option.ite_none_right_eq_some.1 h
    exact exists_run_woken s.log m
  | notifyAll =>
    obtain ⟨-, ⟨⟩⟩ := Option.ite_none_right_eq_some.1 h
    exact exists_run_woken s.log m
  | init =>
    obtain ⟨-, log, hstep, rfl⟩ := controlStep_eq_some h
    exact ⟨_, run_recorded _ m hstep⟩
  | shutdown =>
    obtain ⟨s₁, hcontrol, rfl⟩ := Option.map_eq_some_iff.1 h
    obtain ⟨-, log, hstep, rfl⟩ := controlStep_eq_some hcontrol
    exact ⟨_, run_recorded _ m hstep⟩
  | join =>
    obtain ⟨-, log, hstep, rfl⟩ := controlStep_eq_some h
    exact ⟨_, run_recorded _ m hstep⟩
  | worker =>
    obtain ⟨-, h⟩ := Option.ite_none_left_eq_some.1 h
    obtain ⟨log, hstep, rfl⟩ := Option.map_eq_some_iff.1 h
    exact ⟨_, run_recorded _ (l := .worker) m hstep⟩
  | wake =>
    obtain ⟨hasleep, h⟩ := Option.ite_none_right_eq_some.1 h
    obtain ⟨log, hstep, rfl⟩ := Option.map_eq_some_iff.1 h
    have hrun := run_recorded old (l := .worker) m hstep
    simp only [Logger.Ledger.write, hasleep] at hrun
    exact ⟨_, hrun⟩
  | flush n =>
    obtain ⟨log, hstep, rfl⟩ := Option.map_eq_some_iff.1 h
    exact ⟨_, run_recorded _ (l := .flush n) m hstep⟩

/-- **The notified logger is a logger.** -/
theorem reachable_log {old : Bytes} {s : NotifiedLogger} {m : Logger.Ledger}
    (h : ((lts old).record {} write).Reachable (s, m)) : (recorded old).Reachable (s.log, m) := by
  refine h.refine (B := recorded old) (f := fun p => (p.1.log, p.2)) rfl ?_
  rintro ⟨s, m⟩ l ⟨s', m'⟩ - hstep
  obtain ⟨hstep, rfl⟩ := LTS.record_step_eq_some.1 hstep
  exact exists_run m hstep

/-! ### No notification is lost -/

/-- The worker at `cv_`. -/
def waits (s : NotifiedLogger) : WaitSet where
  sleepers := (decide (s.log.worker = some .asleep)).toNat
  awake := (decide (s.log.worker = some .lock)).toNat
  one := s.one
  all := s.all.toNat
  ready := s.log.queue.length
  opened := !s.log.running

/-- No step leaves the worker asleep but its own. -/
theorem sleepers_eq_zero {s : NotifiedLogger} (h : s.log.worker ≠ some .asleep) :
    s.waits.sleepers = 0 := by
  simp [waits, h]

theorem waits_worker {s : NotifiedLogger} {log : Logger} (hasleep : s.log.worker ≠ some .asleep)
    (h : s.log.workerStep = some log) : WaitSet.Step s.waits (waits { s with log }) := by
  cases Logger.worker_cases h with
  | sleep hworker hrunning hqueue =>
    refine .sleep (by simp [waits, hrunning]) (by simp [waits, hqueue]) ?_
    simp [waits, hworker]
  | exit hworker hrunning hqueue =>
    exact .nobody (by simp [waits])
  | swap hworker => exact .nobody (by simp [waits])
  | wake hworker => exact absurd hworker hasleep
  | line line batch buffer hworker => exact .nobody (by simp [waits])
  | close buffer hworker => exact .nobody (by simp [waits])

theorem sleepers_woken (s : Logger) (n : ℕ) (b : Bool) :
    (waits { log := woken s, one := n, all := b }).sleepers = 0 := by
  refine sleepers_eq_zero ?_
  by_cases hasleep : s.worker = some .asleep
  · simp [woken, hasleep]
  · simp [woken, hasleep]

theorem waits_step {s s' : NotifiedLogger} {l : Label} (h : s.step l = some s') :
    WaitSet.Step s.waits s'.waits := by
  have hsame : ∀ {log}, log.worker = s.log.worker → log.queue = s.log.queue →
      log.running = s.log.running → WaitSet.Step s.waits (waits { s with log }) := by
    intro log hworker hqueue hrunning
    rw [show waits { s with log } = s.waits by simp only [waits, hworker, hqueue, hrunning]]
    exact .change 0 (Nat.le_refl _) rfl (Nat.le_refl _) rfl rfl rfl
  cases l with
  | enqueue line =>
    cases h
    refine .change 1 ?_ rfl (Nat.le_refl _) rfl rfl rfl
    simp [waits, Logger.enqueue]
  | notifyOne =>
    obtain ⟨-, ⟨⟩⟩ := Option.ite_none_right_eq_some.1 h
    exact .nobody (sleepers_woken s.log _ _)
  | notifyAll =>
    obtain ⟨-, ⟨⟩⟩ := Option.ite_none_right_eq_some.1 h
    exact .nobody (sleepers_woken s.log _ _)
  | init =>
    obtain ⟨-, log, hstep, rfl⟩ := controlStep_eq_some h
    cases Logger.init_cases hstep with
    | init _ _ _ => exact .nobody (sleepers_eq_zero (by simp))
    | running _ => exact hsame rfl rfl rfl
  | shutdown =>
    obtain ⟨s₁, hcontrol, rfl⟩ := Option.map_eq_some_iff.1 h
    obtain ⟨hall, log, hstep, rfl⟩ := controlStep_eq_some hcontrol
    obtain ⟨hjoining, hstep⟩ := Option.ite_none_left_eq_some.1 hstep
    split_ifs at hstep with hrunning
    · cases hstep
      exact .opening (Nat.zero_lt_one)
    · cases hstep
      simp only [Bool.not_eq_true] at hjoining
      rw [hjoining, ← hall]
      exact hsame rfl rfl rfl
  | join =>
    obtain ⟨-, log, hstep, rfl⟩ := controlStep_eq_some h
    cases Logger.join_cases hstep with
    | join _ _ => exact hsame rfl rfl rfl
    | joined _ _ => exact .nobody (sleepers_eq_zero nofun)
  | worker =>
    obtain ⟨hasleep, h⟩ := Option.ite_none_left_eq_some.1 h
    obtain ⟨log, hstep, rfl⟩ := Option.map_eq_some_iff.1 h
    exact waits_worker hasleep hstep
  | wake =>
    obtain ⟨hasleep, h⟩ := Option.ite_none_right_eq_some.1 h
    obtain ⟨log, hstep, rfl⟩ := Option.map_eq_some_iff.1 h
    rw [Logger.workerStep, hasleep] at hstep
    cases hstep
    exact .nobody (sleepers_eq_zero nofun)
  | flush n =>
    obtain ⟨log, hstep, rfl⟩ := Option.map_eq_some_iff.1 h
    unfold Logger.flushStep at hstep
    split at hstep
    · cases hstep
      exact .nobody (sleepers_eq_zero nofun)
    · cases hstep

theorem covers_of_reachable {old : Bytes} {s : NotifiedLogger} (h : (lts old).Reachable s) :
    s.waits.Covers :=
  LTS.covers_of_step h rfl fun _ _ _ _ => waits_step

/-- **No line waits for a lost notification.**  While the worker sleeps, a notification of all is
due, or the logger runs and a call of `notify_one` is due for each line in the queue. -/
theorem no_lost_line {old : Bytes} {s : NotifiedLogger} (h : (lts old).Reachable s)
    (hasleep : s.log.worker = some .asleep) :
    s.all = true ∨ s.log.running = true ∧ s.log.queue.length ≤ s.one := by
  have hsleepers : 0 < s.waits.sleepers := by simp [waits, hasleep]
  rcases covers_of_reachable h hsleepers with hall | ⟨hopen, hle⟩
  · left
    by_contra hnone
    simp [waits, Bool.eq_false_iff.2 hnone] at hall
  · right
    simpa [waits, hasleep] using And.intro hopen hle

/-- The worker sleeps, and a line comes. -/
def sleepRun : List Label := [.init, .worker, .enqueue [65]]

theorem no_lost_line_sleep :
    ∃ s, (lts []).Reachable s ∧ s.all = false ∧ s.log.queue.length = 1 ∧ 1 ≤ s.one := by
  obtain ⟨s, hrun, hasleep, hall, hqueue⟩ :
      ∃ s ∈ (lts []).run (lts []).init sleepRun,
        s.log.worker = some .asleep ∧ s.all = false ∧ s.log.queue.length = 1 := by decide +kernel
  have h := LTS.reachable_of_run hrun
  rcases no_lost_line h hasleep with hdue | ⟨-, hle⟩
  · rw [hall] at hdue
    cases hdue
  · exact ⟨s, h, hall, hqueue, hqueue ▸ hle⟩

/-! ### `shutdown` returns -/

/-- The steps that the scheduler owes to the threads that are in the logger. -/
def Label.Owed : Label → Prop
  | .notifyOne | .notifyAll | .join | .worker => True
  | _ => False

/-- Every step but a new line. -/
def Label.NoLine : Label → Prop
  | .enqueue _ => False
  | _ => True

theorem noLine_of_owed {l : Label} (h : l.Owed) : l.NoLine := by
  cases l <;> first | exact h | trivial

/-- How many steps are left for lines in the batch. -/
def batchRank (lines : List Bytes) : ℕ := (lines.map fun line => line.length + 2).sum

/-- How many steps are left to the worker. -/
def workerRank : Option LogWorker → ℕ
  | some .lock => 1
  | some .asleep => 2
  | some (.write batch buffer) => 2 + batchRank batch + buffer.length
  | some .exited => 0
  | none => 0

/-- How many steps are left to a `shutdown` that joins the worker. -/
def rank (s : NotifiedLogger) : ℕ :=
  workerRank s.log.worker + batchRank s.log.queue + 2 * s.log.queue.length + s.one + s.all.toNat

theorem rank_worker {s : NotifiedLogger} {log : Logger} (hrunning : s.log.running = false)
    (h : s.log.workerStep = some log) : rank { s with log } < s.rank := by
  cases Logger.worker_cases h with
  | sleep hworker hopen hqueue => rw [hrunning] at hopen; cases hopen
  | exit hworker _ hqueue =>
    simp only [rank, hworker, workerRank]
    omega
  | swap hworker =>
    have hqueue : s.log.queue ≠ [] := by
      intro hnil
      simp [Logger.workerStep, hworker, hrunning, hnil] at h
    have hpos := List.length_pos_iff.2 hqueue
    simp only [rank, hworker, workerRank, batchRank, List.map_nil, List.sum_nil, List.length_nil]
    omega
  | wake hworker =>
    simp only [rank, hworker, workerRank]
    omega
  | line line batch buffer hworker =>
    simp only [rank, hworker, workerRank, batchRank, List.map_cons, List.sum_cons,
      List.length_append, Logger.lineText, List.length_singleton]
    omega
  | close buffer hworker =>
    simp only [rank, hworker, workerRank, batchRank, List.map_nil, List.sum_nil]
    omega

theorem rank_flush {s : NotifiedLogger} {log : Logger} {n : ℕ} (h : s.log.flushStep n = some log)
    (hne : log ≠ s.log) : rank { s with log } < s.rank := by
  unfold Logger.flushStep at h
  split at h
  · rename_i batch buffer hworker
    cases h
    have hpos : 0 < n ∧ 0 < buffer.length := by
      by_contra hnone
      have hnothing : buffer.take n = [] ∧ buffer.drop n = buffer := by
        rcases Nat.eq_zero_or_pos n with rfl | hn
        · exact ⟨rfl, rfl⟩
        · have hbuffer : buffer = [] := by
            by_contra hbuffer
            exact hnone ⟨hn, List.length_pos_iff.2 hbuffer⟩
          simp [hbuffer]
      refine hne ?_
      rw [hnothing.1, hnothing.2, List.append_nil, ← hworker]
    simp only [rank, hworker, workerRank, List.length_drop]
    omega
  · cases h

theorem rank_woken (s : Logger) : workerRank (woken s).worker ≤ workerRank s.worker := by
  by_cases hasleep : s.worker = some .asleep
  · simp [woken, hasleep, workerRank]
  · simp [woken, hasleep]

theorem woken_eq (s : Logger) :
    (woken s).queue = s.queue ∧ (woken s).joining = s.joining := by
  unfold woken
  split_ifs <;> exact ⟨rfl, rfl⟩

/-- What holds while `shutdown` joins the worker. -/
structure Joining (old : Bytes) (p : NotifiedLogger × Logger.Ledger) : Prop where
  joining : p.1.log.joining = true
  covers : p.1.waits.Covers
  logs : Logger.Logs old p.1.log p.2

/-- `shutdown` has returned with the lines that were enqueued before it in the file. -/
structure Returned (old : Bytes) (p : NotifiedLogger × Logger.Ledger) : Prop where
  joining : p.1.log.joining = false
  file : p.1.log.file = old ++ Logger.text p.2.written
  lines : p.2.enqueued.take p.2.mark <+: p.2.written

theorem joining_step {old : Bytes} {s s' : NotifiedLogger} {m : Logger.Ledger} {l : Label}
    (h : Joining old (s, m)) (hl : l.NoLine) (hstep : s.step l = some s')
    (hne : (s', write m s l) ≠ (s, m) ∨ l.Owed) :
    Returned old (s', write m s l) ∨ s'.log.joining = true ∧ s'.rank < s.rank := by
  have hjoining : s.log.joining = true := h.joining
  have hrunning : s.log.running = false := h.logs.stopped hjoining
  have hwoken := rank_woken s.log
  have hsame := woken_eq s.log
  cases l with
  | enqueue line => cases hl
  | notifyOne =>
    obtain ⟨hone, ⟨⟩⟩ := Option.ite_none_right_eq_some.1 hstep
    refine .inr ⟨hsame.2.trans hjoining, ?_⟩
    simp only [rank, hsame.1]
    omega
  | notifyAll =>
    obtain ⟨hall, ⟨⟩⟩ := Option.ite_none_right_eq_some.1 hstep
    refine .inr ⟨hsame.2.trans hjoining, ?_⟩
    simp only [rank, hsame.1, hall, Bool.toNat_true, Bool.toNat_false]
    omega
  | init =>
    obtain ⟨-, log, hlog, rfl⟩ := controlStep_eq_some hstep
    simp [Logger.step, Logger.initStep, hjoining] at hlog
  | shutdown =>
    obtain ⟨s₁, hcontrol, rfl⟩ := Option.map_eq_some_iff.1 hstep
    obtain ⟨-, log, hlog, rfl⟩ := controlStep_eq_some hcontrol
    simp [Logger.step, Logger.shutdownStep, hjoining] at hlog
  | join =>
    obtain ⟨-, log, hlog, rfl⟩ := controlStep_eq_some hstep
    obtain ⟨hfile, hlines⟩ := h.logs.joined hlog
    refine .inl ⟨?_, hfile, hlines⟩
    cases Logger.join_cases hlog <;> rfl
  | worker =>
    obtain ⟨hasleep, hstep⟩ := Option.ite_none_left_eq_some.1 hstep
    obtain ⟨log, hlog, rfl⟩ := Option.map_eq_some_iff.1 hstep
    refine .inr ⟨?_, rank_worker hrunning hlog⟩
    exact (Logger.quiet_worker m hlog).joining.trans hjoining
  | wake =>
    obtain ⟨hasleep, hstep⟩ := Option.ite_none_right_eq_some.1 hstep
    obtain ⟨log, hlog, rfl⟩ := Option.map_eq_some_iff.1 hstep
    refine .inr ⟨?_, rank_worker hrunning hlog⟩
    exact (Logger.quiet_worker m hlog).joining.trans hjoining
  | flush n =>
    obtain ⟨log, hlog, rfl⟩ := Option.map_eq_some_iff.1 hstep
    refine .inr ⟨(Logger.quiet_flush m hlog).joining.trans hjoining, rank_flush hlog ?_⟩
    rintro rfl
    exact hne.elim (absurd rfl) False.elim

/-- While the worker is joined, a thread can go on. -/
theorem exists_owed {old : Bytes} {s : NotifiedLogger} {m : Logger.Ledger}
    (h : Joining old (s, m)) : ∃ l s', Label.Owed l ∧ s.step l = some s' := by
  have hjoining : s.log.joining = true := h.joining
  have hrunning : s.log.running = false := h.logs.stopped hjoining
  cases hall : s.all with
  | true => exact ⟨.notifyAll, _, trivial, if_pos hall⟩
  | false =>
    have hworker : ∀ log, s.log.worker ≠ some .asleep → s.log.workerStep = some log →
        ∃ l s', Label.Owed l ∧ s.step l = some s' := by
      intro log hasleep hlog
      refine ⟨.worker, { s with log }, trivial, ?_⟩
      simp [step, hasleep, hlog]
    have hjoin : ∀ log, s.log.joinStep = some log →
        ∃ l s', Label.Owed l ∧ s.step l = some s' := by
      intro log hlog
      refine ⟨.join, { s with log }, trivial, ?_⟩
      simp [step, controlStep, hall, Logger.step, hlog]
    cases hlog : s.log.worker with
    | none =>
      exact hjoin { s.log with joining := false } (by simp [Logger.joinStep, hjoining, hlog])
    | some w =>
      cases w with
      | lock =>
        cases hqueue : s.log.queue with
        | nil =>
          exact hworker { s.log with worker := some .exited } (by simp [hlog])
            (by simp [Logger.workerStep, hlog, hqueue, hrunning])
        | cons line lines =>
          exact hworker { s.log with queue := [], worker := some (.write (line :: lines) []) }
            (by simp [hlog]) (by simp [Logger.workerStep, hlog, hqueue, hrunning])
      | asleep =>
        -- the worker has been notified
        have hsleepers : 0 < s.waits.sleepers := by simp [waits, hlog]
        have hdue := h.covers hsleepers
        simp [waits, hall, hrunning] at hdue
      | write batch buffer =>
        cases batch with
        | nil =>
          exact hworker { s.log with file := s.log.file ++ buffer, worker := some .lock }
            (by simp [hlog]) (by simp [Logger.workerStep, hlog])
        | cons line lines =>
          exact hworker
            { s.log with worker := some (.write lines (buffer ++ Logger.lineText line)) }
            (by simp [hlog]) (by simp [Logger.workerStep, hlog])
      | exited =>
        exact hjoin { s.log with worker := none, joining := false }
          (by simp [Logger.joinStep, hjoining, hlog])

theorem reachable_joining {old : Bytes} {s : NotifiedLogger} {m : Logger.Ledger}
    (h : ((lts old).record {} write).Reachable (s, m)) (hjoining : s.log.joining = true) :
    Joining old (s, m) :=
  ⟨hjoining, covers_of_reachable (LTS.reachable_fst h), Logger.logs_of_reachable (reachable_log h)⟩

/-- **`shutdown` returns.**  Once its section has run, the threads come to its end whatever the
order of their steps, unless another thread goes on to log for ever, and the worker need not wake
without a notification.  Then the lines that were enqueued before the call are in the file. -/
theorem shutdown_returns {old : Bytes} {s : NotifiedLogger} {m : Logger.Ledger}
    (h : ((lts old).record {} write).Reachable (s, m)) (hjoining : s.log.joining = true) :
    ((lts old).record {} write).Inevitable Label.Owed Label.NoLine (Returned old) (s, m) := by
  refine LTS.inevitable_of_rank
    (fun p => ((lts old).record {} write).Reachable p ∧ p.1.log.joining = true)
    (fun p => rank p.1) ?_ ?_ ⟨h, hjoining⟩
  · rintro ⟨s, m⟩ l ⟨s', m'⟩ ⟨h, hjoining⟩ hl hstep hne
    have h' := LTS.ReachableIf.step h trivial hstep
    obtain ⟨hstep, rfl⟩ := LTS.record_step_eq_some.1 hstep
    exact (joining_step (reachable_joining h hjoining) hl hstep (.inl hne)).imp_right
      fun ⟨hjoining, hlt⟩ => ⟨⟨h', hjoining⟩, hlt⟩
  · rintro ⟨s, m⟩ ⟨h, hjoining⟩ -
    have hj := reachable_joining h hjoining
    obtain ⟨l, s', hl, hstep⟩ := exists_owed hj
    refine ⟨l, (s', write m s l), hl, LTS.record_step_eq_some.2 ⟨hstep, rfl⟩, fun heq => ?_⟩
    obtain rfl : s' = s := congrArg Prod.fst heq
    rcases joining_step hj (noLine_of_owed hl) hstep (.inr hl) with hreturned | ⟨-, hlt⟩
    · exact Bool.false_ne_true (hreturned.joining.symm.trans hjoining)
    · exact Nat.lt_irrefl _ hlt

theorem shutdown_returns_sleep :
    ∃ s m, ((lts []).record {} write).Reachable (s, m) ∧ m.enqueued = [[65]] ∧
      ((lts []).record {} write).Inevitable Label.Owed Label.NoLine (Returned []) (s, m) := by
  obtain ⟨⟨s, m⟩, hrun, hlines, hjoining⟩ :
      ∃ p ∈ ((lts []).record {} write).run ((lts []).record {} write).init
          (sleepRun ++ [.shutdown]),
        p.2.enqueued = [[65]] ∧ p.1.log.joining = true := by decide +kernel
  have h := LTS.reachable_of_run hrun
  exact ⟨s, m, h, hlines, shutdown_returns h hjoining⟩

/-! ### What is left to the logger -/

/-- The worker returns from `cv_.wait` without a notification, or finds nothing and sleeps; there is
nothing to hand to the file, or nothing to shut down. -/
def Idle (s : NotifiedLogger) : Label → Prop
  | .wake => True
  | .worker => s.log.worker = some .lock ∧ s.log.running = true ∧ s.log.queue = []
  | .flush n => n = 0 ∨ s.log.buffer = []
  | .shutdown => s.log.running = false
  | _ => False

/-- Any other step but a new line and a new start. -/
def Own (s : NotifiedLogger) : Label → Prop
  | .enqueue _ | .init => False
  | l => ¬ s.Idle l

/-- How many steps are left to the worker for the lines that it holds. -/
def workerLeft : Option LogWorker → ℕ
  | some (.write batch buffer) => 2 + batchRank batch + buffer.length
  | some .lock | some .asleep => 1
  | some .exited | none => 0

/-- How many steps are left for the lines that are there, with those of a `shutdown`. -/
def left (s : NotifiedLogger) : ℕ :=
  workerLeft s.log.worker + batchRank s.log.queue + 2 * s.log.queue.length + s.one + s.all.toNat +
    s.log.joining.toNat + 3 * s.log.running.toNat

theorem woken_left (s : Logger) :
    workerLeft (woken s).worker = workerLeft s.worker ∧ (woken s).queue = s.queue ∧
      (woken s).joining = s.joining ∧ (woken s).running = s.running := by
  unfold woken
  split_ifs with hasleep
  · exact ⟨by rw [hasleep]; rfl, rfl, rfl, rfl⟩
  · exact ⟨rfl, rfl, rfl, rfl⟩

theorem left_worker {s : NotifiedLogger} {log : Logger} (hasleep : s.log.worker ≠ some .asleep)
    (hidle : ¬ s.Idle .worker) (h : s.log.workerStep = some log) :
    left { s with log } < s.left := by
  cases Logger.worker_cases h with
  | sleep hworker hrunning hqueue => exact absurd ⟨hworker, hrunning, hqueue⟩ hidle
  | exit hworker hrunning hqueue =>
    simp only [left, hworker, workerLeft]
    omega
  | swap hworker =>
    have hqueue : s.log.queue ≠ [] := by
      intro hnil
      cases hrunning : s.log.running with
      | true => exact hidle ⟨hworker, hrunning, hnil⟩
      | false => simp [Logger.workerStep, hworker, hrunning, hnil] at h
    have hpos := List.length_pos_iff.2 hqueue
    simp only [left, hworker, workerLeft, batchRank, List.map_nil, List.sum_nil, List.length_nil]
    omega
  | wake hworker => exact absurd hworker hasleep
  | line line batch buffer hworker =>
    simp only [left, hworker, workerLeft, batchRank, List.map_cons, List.sum_cons,
      List.length_append, Logger.lineText, List.length_singleton]
    omega
  | close buffer hworker =>
    simp only [left, hworker, workerLeft, batchRank, List.map_nil, List.sum_nil]
    omega

/-- A step leaves less to do, unless the worker waits on. -/
theorem left_lt {s s' : NotifiedLogger} {l : Label} (hl : s.Own l) (h : s.step l = some s') :
    s'.left < s.left := by
  obtain ⟨hworker, hqueue, hjoining, hrunning⟩ := woken_left s.log
  cases l with
  | enqueue line => exact hl.elim
  | init => exact hl.elim
  | wake => exact absurd trivial hl
  | notifyOne =>
    obtain ⟨hone, ⟨⟩⟩ := Option.ite_none_right_eq_some.1 h
    simp only [left, hworker, hqueue, hjoining, hrunning]
    omega
  | notifyAll =>
    obtain ⟨hall, ⟨⟩⟩ := Option.ite_none_right_eq_some.1 h
    simp only [left, hworker, hqueue, hjoining, hrunning, hall, Bool.toNat_true, Bool.toNat_false]
    omega
  | shutdown =>
    obtain ⟨s₁, hcontrol, rfl⟩ := Option.map_eq_some_iff.1 h
    obtain ⟨hall, log, hlog, rfl⟩ := controlStep_eq_some hcontrol
    obtain ⟨hidle, hlog⟩ := Option.ite_none_left_eq_some.1 hlog
    have hruns : s.log.running = true := by
      by_contra hstopped
      exact hl (Bool.eq_false_iff.2 hstopped)
    rw [if_pos hruns, Option.some.injEq] at hlog
    subst hlog
    rw [Bool.not_eq_true] at hidle
    simp only [left, hall, hidle, hruns, Bool.toNat_true, Bool.toNat_false]
    omega
  | join =>
    obtain ⟨-, log, hlog, rfl⟩ := controlStep_eq_some h
    cases Logger.join_cases hlog with
    | join hjoins hnone =>
      simp only [left, hjoins, Bool.toNat_true, Bool.toNat_false]
      omega
    | joined hjoins hexited =>
      simp only [left, hjoins, hexited, workerLeft, Bool.toNat_true, Bool.toNat_false]
      omega
  | worker =>
    obtain ⟨hasleep, h⟩ := Option.ite_none_left_eq_some.1 h
    obtain ⟨log, hlog, rfl⟩ := Option.map_eq_some_iff.1 h
    exact left_worker hasleep hl hlog
  | flush n =>
    obtain ⟨log, hlog, rfl⟩ := Option.map_eq_some_iff.1 h
    obtain ⟨hn, hbuffer⟩ := not_or.1 hl
    unfold Logger.flushStep at hlog
    split at hlog
    · rename_i batch buffer hwrite
      cases hlog
      have hpos := List.length_pos_iff.2 hbuffer
      simp only [Logger.buffer, hwrite] at hpos
      simp only [left, hwrite, workerLeft, List.length_drop]
      omega
    · cases hlog

theorem left_idle {s s' : NotifiedLogger} {l : Label} (hl : s.Idle l) (h : s.step l = some s') :
    s'.left = s.left := by
  cases l with
  | wake =>
    obtain ⟨hasleep, h⟩ := Option.ite_none_right_eq_some.1 h
    obtain ⟨log, hlog, rfl⟩ := Option.map_eq_some_iff.1 h
    rw [Logger.workerStep, hasleep] at hlog
    cases hlog
    simp only [left, hasleep, workerLeft]
  | worker =>
    obtain ⟨hworker, hrunning, hqueue⟩ := hl
    obtain ⟨-, h⟩ := Option.ite_none_left_eq_some.1 h
    obtain ⟨log, hlog, rfl⟩ := Option.map_eq_some_iff.1 h
    simp only [Logger.workerStep, hworker, hrunning, hqueue, List.isEmpty_nil, Bool.and_self,
      if_true, Option.some.injEq] at hlog
    subst hlog
    simp only [left, hworker, hrunning, hqueue, workerLeft]
  | flush n =>
    obtain ⟨log, hlog, rfl⟩ := Option.map_eq_some_iff.1 h
    unfold Logger.flushStep at hlog
    split at hlog
    · rename_i batch buffer hwrite
      cases hlog
      have hlength : (buffer.drop n).length = buffer.length := by
        rcases hl with rfl | hnil
        · rfl
        · rw [Logger.buffer, hwrite] at hnil
          subst hnil
          rw [List.drop_nil]
      simp only [left, hwrite, workerLeft, hlength]
    · cases hlog
  | shutdown =>
    obtain ⟨s₁, hcontrol, rfl⟩ := Option.map_eq_some_iff.1 h
    obtain ⟨hall, log, hlog, rfl⟩ := controlStep_eq_some hcontrol
    obtain ⟨hidle, hlog⟩ := Option.ite_none_left_eq_some.1 hlog
    have hstopped : s.log.running = false := hl
    rw [if_neg (by rw [hstopped]; exact Bool.false_ne_true), Option.some.injEq] at hlog
    subst hlog
    rw [Bool.not_eq_true] at hidle
    simp only [left, hall, hidle]
  | _ => exact hl.elim

end NotifiedLogger

end MiniServer
