import MiniServer.Log.Access
import MiniServer.Server.Logged

/-!
# The access log file of the server

The server with its logger: every call of `access` and `info` is a step of both, and
`HttpServer::stop` calls `Logger::shutdown` behind the join of the workers.  All calls come before
that (`Filed`), so when the server has stopped the file has a line for each of them, and one for
each response that was queued (`access_log_complete`).

The file can be opened and written.  A line is what `enqueue` takes: with a line feed in the path of
its request it is more than one line of the file.
-/

namespace MiniServer

/-- A call of the logger by the server, with the local time of `now`. -/
inductive LogCall where
  /-- At the end of `processConnectionTask`. -/
  | access (t : Tm) (c : ConnId) (peerIp : Bytes) (answer : Answer)
  /-- In `closeIdleConnections`. -/
  | idle (t : Tm) (fd : Fd)

namespace LogCall

/-- The line that the call queues. -/
def line : LogCall → Bytes
  | access t _ peerIp answer =>
    Logger.access t
      ⟨peerIp, answer.method, answer.path, answer.statusCode, answer.bytesSent⟩
  | idle t fd => Logger.info t (.ofString "idle timeout fd=" ++ Bytes.ofNat fd)

/-- The connection, address and response of a call of `access`. -/
def response : LogCall → Option (ConnId × Bytes × Answer)
  | access _ c peerIp answer => some (c, peerIp, answer)
  | idle _ _ => none

end LogCall

/-- The server and its logger. -/
structure LoggingServer (Q : Type) where
  server : HttpServer Q
  log : Logger

namespace LoggingServer

/-- Steps of the threads of the server, of the thread of the logger and of its stream. -/
inductive Label where
  /-- A step of the server, with the local time. -/
  | server (l : MiniServer.Label) (t : Tm)
  /-- `Logger::shutdown` in the main thread, up to the end of its section. -/
  | shutdown
  /-- The `join` in it. -/
  | join
  | worker
  | flush (n : ℕ)

variable {Q : Type}

/-- The call of the logger in a step of the server. -/
def call? (s : HttpServer Q) (t : Tm) : MiniServer.Label → Option LogCall
  | .task i _ =>
    match (s.tasks[i]?).map Task.pc with
    | some (.access c record) => some (.access t c (s.conns c).peerIp record)
    | _ => none
  | .main .done =>
    match s.main with
    | .expired (fd :: _) => some (.idle t fd)
    | _ => none
  | _ => none

/-- The logger after a call. -/
def called (log : Logger) (call : Option LogCall) : Logger :=
  call.elim log fun call => log.enqueue call.line

section Step

variable [PriorityQueue Q (TimerHeap.Node Fd ℕ) TimerHeap.later]
variable (reply : Bytes → Answer) (idle : ℕ)

/-- A step of the server with its logger.  The section of `stop` that closes every connection comes
behind `logger_.shutdown()`. -/
def step (s : LoggingServer Q) : Label → Option (LoggingServer Q)
  | .server l t =>
    if s.server.main = .shutdown ∧ l = .main .done ∧ s.log.worker.isSome then none
    else (s.server.step reply idle l).map fun server =>
      { server, log := called s.log (call? s.server t l) }
  | .shutdown =>
    if s.server.main = .shutdown then s.log.shutdownStep.map fun log => { s with log } else none
  | .join => s.log.joinStep.map fun log => { s with log }
  | .worker => s.log.workerStep.map fun log => { s with log }
  | .flush n => (s.log.flushStep n).map fun log => { s with log }

/-- The server behind `logger_.init` in `start`, with a log file that may exist already. -/
def lts (old : Bytes) : LTS (LoggingServer Q) Label where
  init :=
    { server := (HttpServer.lts reply idle).init
      log := { running := true, worker := some .lock, file := old } }
  step s l := s.step reply idle l

end Step

/-- What is recorded of the responses and of the logger, and the calls of the logger. -/
structure Ledger where
  audit : Audit := {}
  log : Logger.Ledger := {}
  calls : List LogCall := []

/-- The ledger after a step. -/
def Ledger.write (reply : Bytes → Answer) (m : Ledger) (s : LoggingServer Q) : Label → Ledger
  | .server l t =>
    let call := call? s.server t l
    { audit := HttpServer.audit reply m.audit s.server l
      log := call.elim m.log fun call => m.log.write s.log (.enqueue call.line)
      calls := m.calls ++ call.toList }
  | .shutdown => { m with log := m.log.write s.log .shutdown }
  | .join => { m with log := m.log.write s.log .join }
  | .worker => { m with log := m.log.write s.log .worker }
  | .flush n => { m with log := m.log.write s.log (.flush n) }

/-- The workers are joined. -/
def Joined (s : LoggingServer Q) : Prop := s.server.main = .shutdown ∨ s.server.main = .stopped

/-- The invariant of the server with its logger. -/
structure Filed (old : Bytes) (s : LoggingServer Q) (m : Ledger) : Prop where
  audited : HttpServer.Audited s.server m.audit
  closable : HttpServer.Closable s.server
  logs : Logger.Logs old s.log m.log
  enqueued : m.log.enqueued = m.calls.map LogCall.line
  responses : m.audit.logged = m.calls.filterMap LogCall.response
  running : ¬ s.Joined → s.log.running = true
  marked : s.log.running = false → m.log.mark = m.log.enqueued.length
  returned : s.log.worker = none → m.log.written = m.log.enqueued
  stopped : s.server.main = .stopped → s.log.worker = none

variable {reply : Bytes → Answer} {idle : ℕ} {old : Bytes} {s s' : LoggingServer Q} {m : Ledger}

/-- Nothing is logged behind the join of the workers. -/
theorem Filed.call?_eq_none (h : Filed old s m) (hjoined : s.Joined) (t : Tm)
    (l : MiniServer.Label) : call? s.server t l = none := by
  obtain ⟨-, htasks⟩ := h.closable.joined hjoined
  unfold call?
  split
  · rw [htasks]
    rfl
  · rcases hjoined with hm | hm <;> rw [hm]
  · rfl

/-- A step of the logger in which the server does not take part. -/
theorem Filed.log_step (h : Filed old s m) {log : Logger} {l : Logger.Label}
    (hstep : s.log.step l = some log) (henqueued : (m.log.write s.log l).enqueued = m.log.enqueued)
    (hrunning : ¬ s.Joined → log.running = true)
    (hmarked : log.running = false → (m.log.write s.log l).mark = m.log.enqueued.length)
    (hreturned : log.worker = none → (m.log.write s.log l).written = m.log.enqueued)
    (hstopped : s.server.main = .stopped → log.worker = none) :
    Filed old { s with log } { m with log := m.log.write s.log l } where
  audited := h.audited
  closable := h.closable
  logs := h.logs.step hstep
  enqueued := henqueued.trans h.enqueued
  responses := h.responses
  running := hrunning
  marked hlog := henqueued ▸ hmarked hlog
  returned hlog := henqueued ▸ hreturned hlog
  stopped := hstopped

/-- A step of the thread of the logger or of its stream. -/
theorem Filed.quiet (h : Filed old s m) {log : Logger} {l : Logger.Label}
    (hstep : s.log.step l = some log) (henqueued : (m.log.write s.log l).enqueued = m.log.enqueued)
    (hquiet : Logger.Quiet s.log log m.log (m.log.write s.log l))
    (hworker : s.log.worker ≠ none) :
    Filed old { s with log } { m with log := m.log.write s.log l } := by
  have hstarted : log.worker ≠ none := by
    intro hnone
    obtain ⟨hrunning, hjoining⟩ := (h.logs.step hstep).started.1 hnone
    exact hworker (h.logs.started.2
      ⟨hquiet.running.symm.trans hrunning, hquiet.joining.symm.trans hjoining⟩)
  exact h.log_step hstep henqueued (fun hjoined => hquiet.running.trans (h.running hjoined))
    (fun hlog => hquiet.mark.trans (h.marked (hquiet.running.symm.trans hlog)))
    (fun hnone => absurd hnone hstarted) fun hm => absurd (h.stopped hm) hworker

theorem Filed.worker (h : Filed old s m) {log : Logger} (hstep : s.log.workerStep = some log) :
    Filed old { s with log } { m with log := m.log.write s.log .worker } := by
  refine h.quiet hstep ?_ (Logger.quiet_worker m.log hstep) ?_
  · simp only [Logger.Ledger.write]
    split <;> rfl
  · intro hnone
    simp [Logger.workerStep, hnone] at hstep

theorem Filed.flush (h : Filed old s m) {n : ℕ} {log : Logger}
    (hstep : s.log.flushStep n = some log) :
    Filed old { s with log } { m with log := m.log.write s.log (.flush n) } := by
  refine h.quiet hstep rfl (Logger.quiet_flush m.log hstep) fun hnone => ?_
  simp [Logger.flushStep, hnone] at hstep

/-- `Logger::shutdown` comes behind the join of the workers. -/
theorem Filed.shutdown (h : Filed old s m) (hm : s.server.main = .shutdown) {log : Logger}
    (hstep : s.log.shutdownStep = some log) :
    Filed old { s with log } { m with log := m.log.write s.log .shutdown } := by
  have hcase := Logger.shutdown_cases hstep
  generalize hl : Logger.Label.shutdown = l at hcase
  cases hcase with
  | shutdown hrunning =>
    have hworker : s.log.worker ≠ none := by
      intro hnone
      rw [(h.logs.started.1 hnone).1] at hrunning
      cases hrunning
    refine h.log_step hstep ?_ (fun hjoined => absurd (.inl hm) hjoined) (fun _ => ?_)
      (fun hnone => absurd hnone hworker) fun hm' => absurd (hm.symm.trans hm') nofun
    · simp [Logger.Ledger.write, hrunning]
    · simp [Logger.Ledger.write, hrunning]
  | stopped hrunning =>
    rw [show m.log.write s.log .shutdown = m.log by simp [Logger.Ledger.write, hrunning]]
    exact h
  | _ => cases hl

/-- When `Logger::shutdown` returns, every line is in the file. -/
theorem Filed.join (h : Filed old s m) {log : Logger} (hstep : s.log.joinStep = some log) :
    Filed old { s with log } { m with log := m.log.write s.log .join } := by
  have hlogs := h.logs
  obtain ⟨-, hmark⟩ := hlogs.joined hstep
  have hcase := Logger.join_cases hstep
  generalize hl : Logger.Label.join = l at hcase
  cases hcase with
  | join hjoining hworker =>
    rw [(hlogs.started.1 hworker).2] at hjoining
    cases hjoining
  | joined hjoining hworker =>
    have hrunning := hlogs.stopped hjoining
    have hwritten : m.log.written = m.log.enqueued := by
      rw [h.marked hrunning, List.take_length] at hmark
      refine (hmark.eq_of_length_le ?_).symm
      rw [← hlogs.lines, List.append_assoc, List.length_append]
      exact Nat.le_add_right _ _
    exact h.log_step hstep rfl
      (fun hjoined => by rw [h.running hjoined] at hrunning; cases hrunning)
      (fun _ => h.marked hrunning) (fun _ => hwritten) fun _ => rfl
  | _ => cases hl

/-- A response is logged by a call of `access`. -/
theorem logged_call? (m : Audit) (s : HttpServer Q) (t : Tm) (l : MiniServer.Label) :
    (HttpServer.audit reply m s l).logged =
      m.logged ++ (call? s t l).toList.filterMap LogCall.response := by
  cases l with
  | task i r =>
    simp only [HttpServer.audit, call?]
    generalize (s.tasks[i]?).map Task.pc = pc
    cases pc with
    | none => simp
    | some pc =>
      cases pc with
      | respond c raw => dsimp only; split_ifs <;> simp
      | access c record => simp [LogCall.response]
      | _ => simp
  | main r =>
    cases r with
    | done =>
      simp only [HttpServer.audit, call?]
      split <;> simp [LogCall.response]
    | _ => simp [HttpServer.audit, call?]
  | _ => simp [HttpServer.audit, call?]

section Step

variable [PriorityQueue Q (TimerHeap.Node Fd ℕ) TimerHeap.later]

/-- The main thread stays behind the join, and stops in the section that closes every connection. -/
theorem main_of_step {s s' : HttpServer Q} {l : MiniServer.Label}
    (h : s.step reply idle l = some s') :
    (s.main = .shutdown ∨ s.main = .stopped → s'.main = .shutdown ∨ s'.main = .stopped) ∧
      (s'.main = .stopped → s.main = .stopped ∨ s.main = .shutdown ∧ l = .main .done) := by
  have hkeep : s'.main = s.main →
      (s.main = .shutdown ∨ s.main = .stopped → s'.main = .shutdown ∨ s'.main = .stopped) ∧
        (s'.main = .stopped → s.main = .stopped ∨ s.main = .shutdown ∧ l = .main .done) :=
    fun hmain => hmain ▸ ⟨id, .inl⟩
  cases l with
  | tick d => cases h; exact hkeep rfl
  | requestStop => cases h; exact hkeep rfl
  | start =>
    obtain ⟨t, queue, hqueue, rfl⟩ := HttpServer.start_cases h
    exact hkeep rfl
  | task i r =>
    obtain ⟨l₁, t, l₂, s₁, pc, htasks, hi, hperform, rfl⟩ := HttpServer.taskStep_cases h
    refine hkeep ?_
    show s₁.main = s.main
    rw [HttpServer.perform_eq hperform]
  | main r =>
    cases HttpServer.mainStep_cases h with
    | loop hm => refine ⟨by simp [hm], fun hm' => ?_⟩; dsimp only at hm'; split_ifs at hm'
    | @close fd pc caller s₁ pc' hm _ =>
      refine ⟨by simp [hm], fun hm' => ?_⟩
      cases pc' <;> cases caller <;> cases hm'
    | shutdown hm hr => exact ⟨fun _ => .inr rfl, fun _ => .inr ⟨hm, by rw [hr]⟩⟩
    | join hm _ _ => exact ⟨fun _ => .inl rfl, by rintro ⟨⟩⟩
    | wait hm _ _ => exact ⟨by simp [hm], by rintro ⟨⟩⟩
    | accepted hm _ _ => exact ⟨by simp [hm], by rintro ⟨⟩⟩
    | _ => exact ⟨by simp [*], by rintro ⟨⟩⟩

theorem Filed.server (h : Filed old s m) {l : MiniServer.Label} {t : Tm} {server : HttpServer Q}
    (hstep : s.server.step reply idle l = some server)
    (hclose : s.server.main = .shutdown → l = .main .done → s.log.worker = none) :
    Filed old { server, log := called s.log (call? s.server t l) }
      (m.write reply s (.server l t)) := by
  obtain ⟨hjoined, hstopped⟩ := main_of_step hstep
  have hstopped : server.main = .stopped → s.log.worker = none := fun hm =>
    (hstopped hm).elim h.stopped fun hm => hclose hm.1 hm.2
  have haudited := h.audited.step hstep
  have hclosable := h.closable.step hstep
  have hresponses : (HttpServer.audit reply m.audit s.server l).logged =
      (m.calls ++ (call? s.server t l).toList).filterMap LogCall.response := by
    rw [logged_call? m.audit s.server t l, h.responses, List.filterMap_append]
  simp only [Ledger.write]
  cases hcall : call? s.server t l with
  | none =>
    rw [hcall] at hresponses
    refine ⟨haudited, hclosable, h.logs, ?_, hresponses,
      fun hj => h.running fun hs => hj (hjoined hs), h.marked, h.returned, hstopped⟩
    exact h.enqueued.trans (by simp)
  | some call =>
    rw [hcall] at hresponses
    -- a call comes before the join
    have hnot : ¬ s.Joined := by
      intro hjoined
      rw [h.call?_eq_none hjoined] at hcall
      cases hcall
    have hrunning := h.running hnot
    have hworker : s.log.worker ≠ none := by
      intro hnone
      rw [(h.logs.started.1 hnone).1] at hrunning
      cases hrunning
    refine ⟨haudited, hclosable, h.logs.step (l := .enqueue call.line) rfl, ?_, hresponses,
      fun _ => hrunning, fun hlog => ?_, fun hnone => absurd hnone hworker, hstopped⟩
    · simp [Logger.Ledger.write, h.enqueued]
    · have hlog : s.log.running = false := hlog
      rw [hrunning] at hlog
      cases hlog

theorem Filed.step (h : Filed old s m) {l : Label} (hstep : s.step reply idle l = some s') :
    Filed old s' (m.write reply s l) := by
  cases l with
  | server l t =>
    obtain ⟨hclose, hstep⟩ := Option.ite_none_left_eq_some.1 hstep
    obtain ⟨server, hserver, rfl⟩ := Option.map_eq_some_iff.1 hstep
    refine h.server hserver fun hm hl => ?_
    by_contra hworker
    exact hclose ⟨hm, hl, Option.isSome_iff_ne_none.2 hworker⟩
  | shutdown =>
    obtain ⟨hm, hstep⟩ := Option.ite_none_right_eq_some.1 hstep
    obtain ⟨log, hlog, rfl⟩ := Option.map_eq_some_iff.1 hstep
    exact h.shutdown hm hlog
  | join =>
    obtain ⟨log, hlog, rfl⟩ := Option.map_eq_some_iff.1 hstep
    exact h.join hlog
  | worker =>
    obtain ⟨log, hlog, rfl⟩ := Option.map_eq_some_iff.1 hstep
    exact h.worker hlog
  | flush n =>
    obtain ⟨log, hlog, rfl⟩ := Option.map_eq_some_iff.1 hstep
    exact h.flush hlog

theorem Filed.init : Filed old (lts (Q := Q) reply idle old).init {} where
  audited := show HttpServer.Audited (HttpServer.lts reply idle).init {} from .init
  closable := show HttpServer.Closable (HttpServer.lts reply idle).init from .init
  logs := (Logger.Logs.init old).step (l := .init) rfl
  enqueued := rfl
  responses := rfl
  running _ := rfl
  marked := nofun
  returned := nofun
  stopped := nofun

/-- **The access log is complete.**  When the server has stopped, the log file is the old file and
one line for each call of the logger, in the order of the calls; every response that was queued has
one of these lines, with the address that `accept` returned for its connection, and no other
response has. -/
theorem access_log_complete
    (h : ((lts reply idle old).record {} (Ledger.write reply)).Reachable (s, m))
    (hstopped : s.server.main = .stopped) :
    s.log.file = old ++ Logger.text (m.calls.map LogCall.line) ∧
      m.audit.queued.Perm
        ((m.calls.filterMap LogCall.response).map fun p => (p.1, p.2.2)) ∧
      ∀ p ∈ m.calls.filterMap LogCall.response, p.2.1 = m.audit.peers p.1 := by
  have hs : Filed old s m :=
    LTS.record_invariant (I := Filed old) h .init fun _ _ _ _ _ hs hstep => hs.step hstep
  have hworker := hs.stopped hstopped
  refine ⟨?_, ?_, fun p hp => (hs.audited.address p (hs.responses ▸ hp)).2⟩
  · have hbytes := hs.logs.bytes
    rwa [hs.returned hworker, hs.enqueued, Logger.buffer, hworker, List.append_nil] at hbytes
  · obtain ⟨hqueue, htasks⟩ := hs.closable.joined (.inr hstopped)
    have hbalance := hs.audited.balance
    rwa [hs.responses, HttpServer.unlogged, hqueue, htasks, List.append_nil, List.filterMap_nil,
      List.append_nil] at hbalance

/-- The server of the sample with its logger, and an empty log file. -/
abbrev sample : LTS (LoggingServer (TimerHeap.SortedNodes ℕ ℕ) × Ledger) Label :=
  (lts Site.empty.reply 30 []).record {} (Ledger.write Site.empty.reply)

/-- A response is queued, the server stops, and the logger writes the line. -/
def stoppedRun (t : Tm) : List Label :=
  HttpServer.loggedRun.dropLast.map (.server · t) ++
    [.shutdown, .worker, .worker, .worker, .worker, .join, .server (.main .done) t]

theorem access_log_complete_stopped :
    ∃ s m, sample.Reachable (s, m) ∧ m.calls.length = 1 ∧ s.log.queue = [] ∧
      s.log.file = Logger.text (m.calls.map LogCall.line) ∧
      m.audit.queued.Perm ((m.calls.filterMap LogCall.response).map fun p => (p.1, p.2.2)) := by
  obtain ⟨⟨s, m⟩, hrun, hstopped, hcalls, hqueue⟩ :
      ∃ p ∈ sample.run sample.init (stoppedRun ⟨2024, 1, 1, 0, 0, 0⟩),
        p.1.server.main = .stopped ∧ p.2.calls.length = 1 ∧ p.1.log.queue = [] := by
    decide +kernel
  have h := LTS.reachable_of_run hrun
  obtain ⟨hfile, hqueued, -⟩ := access_log_complete h hstopped
  exact ⟨s, m, h, hcalls, hqueue, hfile, hqueued⟩

end Step

end LoggingServer

end MiniServer
