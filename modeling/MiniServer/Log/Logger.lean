import MiniServer.LTS.Record
import MiniServer.Text.Bytes

/-!
# The asynchronous logger

Any thread queues lines; the worker thread swaps the whole queue out and writes the lines without
the lock.  A section of `mutex_` is one step.  What is written goes through the buffer of a stream
that may hand any part of it to the file at any time, and all of it when it is closed.  A thread
that sleeps in `cv_.wait` may wake at any time.

One thread calls `init` and `shutdown`, with one file throughout.  `Logs` is the invariant of a run,
`Logs.joined` is what it says when `shutdown` returns.
-/

namespace MiniServer

/-- The worker thread in `Logger::workerLoop`. -/
inductive LogWorker where
  /-- About to take `mutex_` and to test the predicate of the wait. -/
  | lock
  /-- In `cv_.wait`. -/
  | asleep
  /-- Writing the lines that are left of the batch, with the buffer of the stream. -/
  | write (batch : List Bytes) (buffer : Bytes)
  /-- `workerLoop` has returned. -/
  | exited
  deriving DecidableEq, Repr

/-- `class Logger` with its thread, its file and the thread that controls it. -/
structure Logger where
  running : Bool := false
  queue : List Bytes := []
  /-- `worker_`, `none` while it is not joinable. -/
  worker : Option LogWorker := none
  file : Bytes
  /-- The controlling thread is in `worker_.join()`. -/
  joining : Bool := false
  deriving DecidableEq, Repr

namespace Logger

/-- The steps of the threads. -/
inductive Label where
  /-- A call of `access` or `info` by any thread, with the line it has made. -/
  | enqueue (line : Bytes)
  /-- A call of `init`. -/
  | init
  /-- A call of `shutdown`, up to the end of its section. -/
  | shutdown
  /-- The `join` in `shutdown` returns. -/
  | join
  /-- The next step of the worker. -/
  | worker
  /-- The stream hands some bytes of its buffer to the file. -/
  | flush (n : ℕ)
  deriving DecidableEq, Repr

/-- A line with its end. -/
def lineText (line : Bytes) : Bytes := line ++ [10]

/-- The text of a list of lines. -/
def text (lines : List Bytes) : Bytes := (lines.map lineText).flatten

/-- `Logger::enqueue`. -/
def enqueue (s : Logger) (line : Bytes) : Logger := { s with queue := s.queue ++ [line] }

/-- `Logger::init`; a thread is never assigned to a joinable `worker_`. -/
def initStep (s : Logger) : Option Logger :=
  if s.joining then none
  else if s.running then some s
  else
    match s.worker with
    | none => some { s with running := true, worker := some .lock }
    | some _ => none

/-- The section of `Logger::shutdown`. -/
def shutdownStep (s : Logger) : Option Logger :=
  if s.joining then none
  else if s.running then some { s with running := false, joining := true }
  else some s

/-- The rest of `Logger::shutdown`. -/
def joinStep (s : Logger) : Option Logger :=
  if s.joining then
    match s.worker with
    | none => some { s with joining := false }
    | some .exited => some { s with worker := none, joining := false }
    | some _ => none
  else none

/-- A step of `Logger::workerLoop`. -/
def workerStep (s : Logger) : Option Logger :=
  match s.worker with
  | some .lock =>
    if s.running && s.queue.isEmpty then some { s with worker := some .asleep }
    else if !s.running && s.queue.isEmpty then some { s with worker := some .exited }
    else some { s with queue := [], worker := some (.write s.queue []) }
  | some .asleep => some { s with worker := some .lock }
  | some (.write (line :: batch) buffer) =>
    some { s with worker := some (.write batch (buffer ++ lineText line)) }
  | some (.write [] buffer) => some { s with file := s.file ++ buffer, worker := some .lock }
  | _ => none

/-- The stream writes through. -/
def flushStep (s : Logger) (n : ℕ) : Option Logger :=
  match s.worker with
  | some (.write batch buffer) =>
    some { s with
      file := s.file ++ buffer.take n
      worker := some (.write batch (buffer.drop n)) }
  | _ => none

/-- A step of the logger. -/
def step (s : Logger) : Label → Option Logger
  | .enqueue line => some (s.enqueue line)
  | .init => s.initStep
  | .shutdown => s.shutdownStep
  | .join => s.joinStep
  | .worker => s.workerStep
  | .flush n => s.flushStep n

/-- The logger with a file that may exist already. -/
def lts (old : Bytes) : LTS Logger Label where
  init := { file := old }
  step := step

/-! ### What is recorded of a run -/

/-- The lines in the order of their sections. -/
structure Ledger where
  enqueued : List Bytes := []
  /-- Put into the stream by the worker. -/
  written : List Bytes := []
  /-- How many lines were enqueued when `shutdown` last stopped a worker. -/
  mark : ℕ := 0
  deriving DecidableEq, Repr

/-- The ledger after a step. -/
def Ledger.write (m : Ledger) (s : Logger) : Label → Ledger
  | .enqueue line => { m with enqueued := m.enqueued ++ [line] }
  | .shutdown => if s.running then { m with mark := m.enqueued.length } else m
  | .worker =>
    match s.worker with
    | some (.write (line :: _) _) => { m with written := m.written ++ [line] }
    | _ => m
  | _ => m

/-- The lines the worker holds and has not put into the stream. -/
def batch (s : Logger) : List Bytes :=
  match s.worker with
  | some (.write batch _) => batch
  | _ => []

/-- The bytes in the stream. -/
def buffer (s : Logger) : Bytes :=
  match s.worker with
  | some (.write _ buffer) => buffer
  | _ => []

/-- The invariant of the logger and its ledger. -/
structure Logs (old : Bytes) (s : Logger) (m : Ledger) : Prop where
  lines : m.written ++ s.batch ++ s.queue = m.enqueued
  bytes : s.file ++ s.buffer = old ++ text m.written
  mark : m.mark ≤ m.enqueued.length
  exited : s.worker = some .exited → s.running = false ∧ m.mark ≤ m.written.length
  started : s.worker = none ↔ s.running = false ∧ s.joining = false
  stopped : s.joining = true → s.running = false

theorem text_append (ls ls' : List Bytes) : text (ls ++ ls') = text ls ++ text ls' := by
  simp [text]

/-! ### One step -/

/-- What the worker does in a step. -/
inductive WorkerCase (s : Logger) : Logger → Prop
  | sleep : s.worker = some .lock → s.running = true → s.queue = [] →
      WorkerCase s { s with worker := some .asleep }
  | exit : s.worker = some .lock → s.running = false → s.queue = [] →
      WorkerCase s { s with worker := some .exited }
  | swap : s.worker = some .lock → WorkerCase s { s with
      queue := []
      worker := some (.write s.queue []) }
  | wake : s.worker = some .asleep → WorkerCase s { s with worker := some .lock }
  | line (line : Bytes) (batch : List Bytes) (buffer : Bytes) :
      s.worker = some (.write (line :: batch) buffer) →
        WorkerCase s { s with worker := some (.write batch (buffer ++ lineText line)) }
  | close (buffer : Bytes) : s.worker = some (.write [] buffer) →
      WorkerCase s { s with file := s.file ++ buffer, worker := some .lock }

theorem worker_cases {s s' : Logger} (h : s.workerStep = some s') : WorkerCase s s' := by
  unfold workerStep at h
  split at h
  · rename_i hworker
    split_ifs at h with hsleep hexit
    · rw [Bool.and_eq_true, List.isEmpty_iff] at hsleep
      cases h
      exact .sleep hworker hsleep.1 hsleep.2
    · rw [Bool.and_eq_true, Bool.not_eq_true', List.isEmpty_iff] at hexit
      cases h
      exact .exit hworker hexit.1 hexit.2
    · cases h
      exact .swap hworker
  · rename_i hworker
    cases h
    exact .wake hworker
  · rename_i line batch buffer hworker
    cases h
    exact .line line batch buffer hworker
  · rename_i buffer hworker
    cases h
    exact .close buffer hworker
  · cases h

theorem Logs.init (old : Bytes) : Logs old { file := old } {} where
  lines := rfl
  bytes := rfl
  mark := Nat.le_refl _
  exited h := by cases h
  started := ⟨fun _ => ⟨rfl, rfl⟩, fun _ => rfl⟩
  stopped h := by cases h

theorem Logs.worker_step {old : Bytes} {s s' : Logger} {m : Ledger} (h : Logs old s m)
    (hstep : s.workerStep = some s') : Logs old s' (m.write s .worker) := by
  obtain ⟨hlines, hbytes, hmark, hexited, hstarted, hstopped⟩ := h
  unfold batch at hlines
  unfold buffer at hbytes
  have hsome : s.worker ≠ none → ∀ w, (some w : Option LogWorker) = none ↔
      s.running = false ∧ s.joining = false := by
    intro hne w
    exact ⟨nofun, fun hoff => absurd (hstarted.2 hoff) hne⟩
  cases worker_cases hstep with
  | sleep hworker hrunning hqueue =>
    simp only [hworker] at hlines hbytes
    simp only [Ledger.write, hworker]
    exact ⟨hlines, hbytes, hmark, nofun, hsome (by rw [hworker]; nofun) _, hstopped⟩
  | exit hworker hrunning hqueue =>
    simp only [hworker] at hlines hbytes
    simp only [Ledger.write, hworker]
    refine ⟨hlines, hbytes, hmark, fun _ => ⟨hrunning, ?_⟩, hsome (by rw [hworker]; nofun) _,
      hstopped⟩
    -- nothing is pending when the worker leaves
    rw [hqueue, List.append_nil, List.append_nil] at hlines
    rw [hlines]
    exact hmark
  | swap hworker =>
    simp only [hworker] at hlines hbytes
    simp only [Ledger.write, hworker]
    refine ⟨?_, hbytes, hmark, nofun, hsome (by rw [hworker]; nofun) _, hstopped⟩
    rw [List.append_nil] at hlines
    exact (List.append_nil _).trans hlines
  | wake hworker =>
    simp only [hworker] at hlines hbytes
    simp only [Ledger.write, hworker]
    exact ⟨hlines, hbytes, hmark, nofun, hsome (by rw [hworker]; nofun) _, hstopped⟩
  | line line batch buffer hworker =>
    simp only [hworker] at hlines hbytes
    simp only [Ledger.write, hworker]
    refine ⟨?_, ?_, hmark, nofun, hsome (by rw [hworker]; nofun) _, hstopped⟩
    · rw [← hlines]
      simp [Logger.batch]
    · show s.file ++ (buffer ++ lineText line) = old ++ text (m.written ++ [line])
      rw [← List.append_assoc, hbytes, text_append, List.append_assoc]
      simp [text]
  | close buffer hworker =>
    simp only [hworker] at hlines hbytes
    simp only [Ledger.write, hworker]
    refine ⟨hlines, ?_, hmark, nofun, hsome (by rw [hworker]; nofun) _, hstopped⟩
    exact (List.append_nil _).trans hbytes

theorem Logs.flush_step {old : Bytes} {s s' : Logger} {m : Ledger} (h : Logs old s m) {n : ℕ}
    (hstep : s.flushStep n = some s') : Logs old s' m := by
  obtain ⟨hlines, hbytes, hmark, hexited, hstarted, hstopped⟩ := h
  unfold batch at hlines
  unfold buffer at hbytes
  unfold flushStep at hstep
  split at hstep
  · rename_i batch buffer hworker
    simp only [hworker] at hlines hbytes
    cases hstep
    refine ⟨hlines, ?_, hmark, nofun, ⟨nofun, fun hoff => ?_⟩, hstopped⟩
    · show s.file ++ buffer.take n ++ buffer.drop n = _
      rw [List.append_assoc, List.take_append_drop]
      exact hbytes
    · rw [hstarted.2 hoff] at hworker
      cases hworker
  · cases hstep

/-- What the controlling thread does in a step. -/
inductive ControlCase (s : Logger) : Label → Logger → Prop
  | init : s.running = false → s.worker = none → s.joining = false →
      ControlCase s .init { s with running := true, worker := some .lock }
  | running : s.running = true → ControlCase s .init s
  | shutdown : s.running = true →
      ControlCase s .shutdown { s with running := false, joining := true }
  | stopped : s.running = false → ControlCase s .shutdown s
  | join : s.joining = true → s.worker = none → ControlCase s .join { s with joining := false }
  | joined : s.joining = true → s.worker = some .exited →
      ControlCase s .join { s with worker := none, joining := false }

theorem init_cases {s s' : Logger} (h : s.initStep = some s') : ControlCase s .init s' := by
  unfold initStep at h
  split_ifs at h with hjoining hrunning
  · cases h
    exact .running hrunning
  · split at h
    · rename_i hworker
      cases h
      exact .init (Bool.eq_false_iff.2 hrunning) hworker (Bool.eq_false_iff.2 hjoining)
    · cases h

theorem shutdown_cases {s s' : Logger} (h : s.shutdownStep = some s') :
    ControlCase s .shutdown s' := by
  unfold shutdownStep at h
  split_ifs at h with hjoining hrunning
  · cases h
    exact .shutdown hrunning
  · cases h
    exact .stopped (Bool.eq_false_iff.2 hrunning)

theorem join_cases {s s' : Logger} (h : s.joinStep = some s') : ControlCase s .join s' := by
  unfold joinStep at h
  split_ifs at h with hjoining
  split at h
  · rename_i hworker
    cases h
    exact .join hjoining hworker
  · rename_i hworker
    cases h
    exact .joined hjoining hworker
  · cases h

theorem Logs.control_step {old : Bytes} {s s' : Logger} {m : Ledger} {l : Label}
    (h : Logs old s m) (hcase : ControlCase s l s') : Logs old s' (m.write s l) := by
  cases hcase with
  | init hrunning hworker hjoining =>
    have hlines := h.lines
    have hbytes := h.bytes
    unfold batch at hlines
    unfold buffer at hbytes
    simp only [hworker] at hlines hbytes
    exact ⟨hlines, hbytes, h.mark, nofun, ⟨nofun, nofun⟩, fun hj => absurd hj (by simp [hjoining])⟩
  | running _ => exact h
  | shutdown hrunning =>
    have hworker : s.worker ≠ none := by
      intro hnone
      rw [(h.started.1 hnone).1] at hrunning
      cases hrunning
    simp only [Ledger.write, hrunning, if_true]
    refine ⟨h.lines, h.bytes, Nat.le_refl _, fun hexited => ?_,
      ⟨fun hnone => absurd hnone hworker, nofun⟩, fun _ => rfl⟩
    rw [(h.exited hexited).1] at hrunning
    cases hrunning
  | stopped hrunning =>
    simp only [Ledger.write, hrunning, Bool.false_eq_true, if_false]
    exact h
  | join hjoining hworker =>
    -- there is a worker to join
    rw [(h.started.1 hworker).2] at hjoining
    cases hjoining
  | joined hjoining hworker =>
    have hlines := h.lines
    have hbytes := h.bytes
    unfold batch at hlines
    unfold buffer at hbytes
    simp only [hworker] at hlines hbytes
    exact ⟨hlines, hbytes, h.mark, nofun, iff_of_true rfl ⟨h.stopped hjoining, rfl⟩, nofun⟩

theorem Logs.step {old : Bytes} {s s' : Logger} {m : Ledger} {l : Label} (h : Logs old s m)
    (hstep : s.step l = some s') : Logs old s' (m.write s l) := by
  cases l with
  | enqueue line =>
    cases hstep
    refine ⟨?_, h.bytes, ?_, h.exited, h.started, h.stopped⟩
    · exact (List.append_assoc _ _ _).symm.trans (congrArg (· ++ [line]) h.lines)
    · refine Nat.le_trans h.mark ?_
      rw [Ledger.write, List.length_append]
      exact Nat.le_add_right _ _
  | init => exact h.control_step (init_cases hstep)
  | shutdown => exact h.control_step (shutdown_cases hstep)
  | join => exact h.control_step (join_cases hstep)
  | worker => exact h.worker_step hstep
  | flush n => exact h.flush_step hstep

/-- When the `join` returns, the lines that were enqueued before the call are in the file. -/
theorem Logs.joined {old : Bytes} {s s' : Logger} {m : Ledger} (h : Logs old s m)
    (hstep : s.step .join = some s') :
    s'.file = old ++ text m.written ∧ m.enqueued.take m.mark <+: m.written := by
  have hcase := join_cases hstep
  generalize hl : Label.join = l at hcase
  cases hcase with
  | join hjoining hworker =>
    rw [(h.started.1 hworker).2] at hjoining
    cases hjoining
  | joined hjoining hworker =>
    have hbytes := h.bytes
    unfold buffer at hbytes
    simp only [hworker] at hbytes
    refine ⟨(List.append_nil _).symm.trans hbytes, ?_⟩
    rw [← h.lines, List.append_assoc, List.take_append_of_le_length (h.exited hworker).2]
    exact List.take_prefix _ _
  | _ => cases hl

/-- A step of a thread that does not control the logger. -/
structure Quiet (s s' : Logger) (m m' : Ledger) : Prop where
  running : s'.running = s.running
  joining : s'.joining = s.joining
  worker : s.worker = none → s'.worker = none
  mark : m'.mark = m.mark
  enqueued : m.enqueued <+: m'.enqueued
  written : m.written <+: m'.written

theorem quiet_enqueue (s : Logger) (m : Ledger) (line : Bytes) :
    Quiet s (s.enqueue line) m (m.write s (.enqueue line)) :=
  ⟨rfl, rfl, id, rfl, List.prefix_append _ _, List.prefix_rfl⟩

theorem quiet_worker {s s' : Logger} (m : Ledger) (h : s.step .worker = some s') :
    Quiet s s' m (m.write s .worker) := by
  cases worker_cases h with
  | line line batch buffer hworker =>
    simp only [Ledger.write, hworker]
    exact ⟨rfl, rfl, fun hnone => absurd (hnone.symm.trans hworker) nofun, rfl, List.prefix_rfl,
      List.prefix_append _ _⟩
  | sleep hworker _ _ | exit hworker _ _ | swap hworker | wake hworker | close _ hworker =>
    simp only [Ledger.write, hworker]
    exact ⟨rfl, rfl, fun hnone => absurd (hnone.symm.trans hworker) nofun, rfl, List.prefix_rfl,
      List.prefix_rfl⟩

theorem quiet_flush {s s' : Logger} (m : Ledger) {n : ℕ} (h : s.step (.flush n) = some s') :
    Quiet s s' m (m.write s (.flush n)) := by
  change s.flushStep n = some s' at h
  unfold flushStep at h
  split at h
  · rename_i batch buffer hworker
    cases h
    exact ⟨rfl, rfl, fun hnone => absurd (hnone.symm.trans hworker) nofun, rfl, List.prefix_rfl,
      List.prefix_rfl⟩
  · cases h

theorem logs_of_reachable {old : Bytes} {s : Logger} {m : Ledger}
    (h : ((lts old).record {} Ledger.write).Reachable (s, m)) : Logs old s m := by
  refine LTS.record_invariant (I := Logs old) h (.init old) ?_
  rintro s m l s' - hs hstep
  exact hs.step hstep

end Logger

end MiniServer
