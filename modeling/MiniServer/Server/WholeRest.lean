import MiniServer.Server.Whole

/-!
# The program comes to rest

While the clients are silent, the program does what is left to do and comes to rest
(`comes_to_rest`).  Once the server no longer runs, `stop` comes to its end (`comes_to_stop`).

The measure is that of the server, then the calls of `route` that are still to be made, then what is
left to the calls that are under way, and last what is left to the logger.  A step of the server may
start calls and queue lines, and a call of `route` gives the user service something to do, so each
part comes behind the one that feeds it.
-/

namespace MiniServer

namespace WholeServer

variable {Q : Type}

/-- Nothing is left to do for the clients. -/
structure AtRest (s : WholeServer Q) : Prop where
  net : s.net.AtRest
  auth : s.auth.AllReturned

/-- `stop` has returned, and nothing is left of the server. -/
structure Stopped (s : WholeServer Q) : Prop where
  net : s.net.Stopped
  auth : s.auth.AllReturned
  log : s.log.log.worker = none

/-- An event waits to be delivered while `stop` waits for the logger. -/
def Held (s : WholeServer Q) : Prop :=
  s.net.Alert ∧ (s.net.server.main = .join ∨ s.net.server.main = .shutdown)

/-- The steps for the clients, while these are silent and none connects. -/
def Serves (s : WholeServer Q) : Label → Prop
  | .net l _ _ => s.net.Serves l
  | .route _ _ => True
  | .auth l => s.auth.Own l
  | .log l => s.Held ∧ s.log.Own l

/-- The steps for nobody: those of the server, threads that wait on, and the lines of the log. -/
def Idle (s : WholeServer Q) : Label → Prop
  | .net l _ _ => s.net.Idle l
  | .route _ _ => False
  | .auth l => s.auth.Idle l
  | .log l => ¬ s.Held ∨ s.log.Idle l

/-- The steps of the program while the clients are silent and none connects. -/
def Alone (s : WholeServer Q) : Label → Prop
  | .net l _ _ => Network.Alone l
  | .route _ _ => True
  | .auth l => s.auth.Own l
  | .log l => s.log.Own l

/-- Time passes, `epoll` tidies its list, or a thread waits on. -/
def Passive (s : WholeServer Q) : Label → Prop
  | .net l _ _ => Network.Passive l
  | .route _ _ => False
  | .auth l => s.auth.Idle l
  | .log l => s.log.Idle l

/-- The steps of the workers and of their calls. -/
def Works (s : WholeServer Q) : Label → Prop
  | .net (.server .start) _ _ | .net (.server (.task _ _)) _ _ | .route _ _ => True
  | .auth l => s.auth.Own l
  | _ => False

variable {s s' : WholeServer Q} {l : Label} {fds : Finset Fd}

theorem Works.serves (h : s.Works l) : s.Serves l := by
  cases l with
  | net l openFile t => cases l with
    | server l => cases l <;> first | exact trivial | exact h.elim
    | _ => exact h.elim
  | log l => exact h.elim
  | _ => exact h

theorem Works.alone (h : s.Works l) : s.Alone l := by
  cases l with
  | net l openFile t => cases l with
    | server l => cases l <;> first | exact trivial | exact h.elim
    | _ => exact h.elim
  | log l => exact h.elim
  | _ => exact h

/-! ### The measure -/

/-- What is left to do, with what the main thread and the logger have before them. -/
def rank (fds : Finset Fd) (pass lines : ℕ) (s : WholeServer Q) :
    (ℕ ×ₗ ℕ ×ₗ ℕ) ×ₗ ℕ ×ₗ ℕ ×ₗ ℕ :=
  toLex (s.net.rank fds pass, toLex (s.routing.count .ahead, toLex (s.auth.rank, lines)))

/-- What is left to the logger when `stop` waits for it. -/
def heldRank (fds : Finset Fd) (s : WholeServer Q) : ℕ :=
  if (∃ fd ∈ fds, s.net.signals fd = true) ∧
    (s.net.server.main = .join ∨ s.net.server.main = .shutdown) then s.log.left else 0

section Rank

variable {pass pass' lines lines' : ℕ}

theorem rank_lt_of_net (h : s'.net.rank fds pass' < s.net.rank fds pass) :
    s'.rank fds pass' lines' < s.rank fds pass lines :=
  Prod.Lex.toLex_lt_toLex.2 (.inl h)

theorem rank_lt_of_routing (hnet : s'.net = s.net)
    (h : s'.routing.count .ahead < s.routing.count .ahead) :
    s'.rank fds pass lines' < s.rank fds pass lines :=
  Prod.Lex.toLex_lt_toLex.2 (.inr ⟨by rw [hnet], Prod.Lex.toLex_lt_toLex.2 (.inl h)⟩)

theorem rank_lt_of_auth (hnet : s'.net = s.net)
    (hrouting : s'.routing.count .ahead = s.routing.count .ahead) (h : s'.auth.rank < s.auth.rank) :
    s'.rank fds pass lines' < s.rank fds pass lines :=
  Prod.Lex.toLex_lt_toLex.2 (.inr ⟨by rw [hnet], Prod.Lex.toLex_lt_toLex.2
    (.inr ⟨hrouting, Prod.Lex.toLex_lt_toLex.2 (.inl h)⟩)⟩)

theorem rank_lt_of_log (hnet : s'.net = s.net) (hrouting : s'.routing = s.routing)
    (hauth : s'.auth = s.auth) (h : lines' < lines) :
    s'.rank fds pass lines' < s.rank fds pass lines := by
  unfold rank
  rw [hnet, hrouting, hauth]
  exact Prod.Lex.toLex_lt_toLex.2 (.inr ⟨rfl, Prod.Lex.toLex_lt_toLex.2
    (.inr ⟨rfl, Prod.Lex.toLex_lt_toLex.2 (.inr ⟨rfl, h⟩)⟩)⟩)

theorem rank_le (hnet : s'.net.rank fds pass' ≤ s.net.rank fds pass)
    (hrouting : s'.routing = s.routing) (hauth : s'.auth.rank = s.auth.rank)
    (hlines : lines' ≤ lines) : s'.rank fds pass' lines' ≤ s.rank fds pass lines := by
  unfold rank
  rw [hrouting, hauth]
  rcases hnet.lt_or_eq with hlt | heq
  · exact Prod.Lex.toLex_le_toLex.2 (.inl hlt)
  · exact Prod.Lex.toLex_le_toLex.2 (.inr ⟨heq, Prod.Lex.toLex_le_toLex.2
      (.inr ⟨rfl, Prod.Lex.toLex_le_toLex.2 (.inr ⟨rfl, hlines⟩)⟩)⟩)

end Rank

/-- A worker makes its call. -/
theorem count_called {routing : List Routing} {i k : ℕ} (hi : routing[i]? = some .ahead) :
    (routing.set i (.called k)).count .ahead < routing.count .ahead := by
  obtain ⟨hlt, hget⟩ := List.getElem?_eq_some_iff.1 hi
  have hpos : 0 < routing.count .ahead := List.count_pos_iff.2 (hget ▸ List.getElem_mem hlt)
  rw [List.count_set hlt, hget]
  simp only [beq_self_eq_true, if_true, beq_iff_eq, reduceCtorEq, if_false]
  omega

/-- A call that returns had been made. -/
theorem count_answered (s : WholeServer Q) (l : NotifiedAuth.Label) :
    (s.answered l).count .ahead = s.routing.count .ahead := by
  have hmap : ∀ (k : ℕ) (response : RoutedResponse) (routing : List Routing),
      (routing.map fun r => if r = .called k then .returned response else r).count .ahead =
        routing.count .ahead := by
    intro k response routing
    induction routing with
    | nil => rfl
    | cons r routing ih =>
      rw [List.map_cons, List.count_cons, List.count_cons, ih]
      split_ifs with hr <;> simp_all
  unfold answered
  split
  · split
    · exact hmap _ _ _
    · rfl
  · rfl

section Run

variable [PriorityQueue Q (TimerHeap.Node Fd ℕ) TimerHeap.later]
variable {htmlRoot : Bytes} {sql : Sql} {poolSize idle : ℕ} {users₀ : Users} {old : Bytes}

omit [PriorityQueue Q (TimerHeap.Node Fd ℕ) TimerHeap.later] in
/-- An empty request does not parse. -/
theorem closeAfterWrite_reply_nil (s : WholeServer Q) (htmlRoot : Bytes) (openFile : OpenFile Id)
    (l : NetLabel) : (s.reply htmlRoot openFile l []).closeAfterWrite = true := by
  have hnone : routedRequest [] = none := by decide
  unfold reply
  split
  · simp only [Site.answerWith, hnone]
    exact Site.closeAfterWrite_reply_nil _
  · exact Site.closeAfterWrite_reply_nil _

/-! ### What holds in every state behind the start -/

/-- The program has started, and no descriptor is open but these. -/
structure Started (htmlRoot : Bytes) (sql : Sql) (poolSize idle : ℕ) (users₀ : Users) (old : Bytes)
    (fds : Finset Fd) (s : WholeServer Q) : Prop where
  reachable : (lts (Q := Q) htmlRoot sql poolSize idle users₀ old).Reachable s
  ready : s.auth.server.pool.phase = .ready
  sound : Network.Sound fds s.net

theorem Started.step (hsql : sql.Escapes)
    (hs : Started htmlRoot sql poolSize idle users₀ old fds s)
    (h : s.step htmlRoot sql poolSize idle l = some s')
    (hl : ∀ fd ip openFile t, l ≠ .net (.server (.main (.accepted fd ip))) openFile t) :
    Started htmlRoot sql poolSize idle users₀ old fds s' := by
  have hauth : ∀ {l auth}, s.auth.step sql poolSize l = some auth →
      auth.server.pool.phase = .ready :=
    NotifiedAuth.phase_eq hsql (reachable_auth hs.reachable) hs.ready
  refine ⟨.step hs.reachable trivial h, ?_, ?_⟩
  · cases step_cases h with
    | route i fault request auth _ _ hstep => exact hauth hstep
    | auth l auth _ hstep => exact hauth hstep
    | _ => exact hs.ready
  · cases step_cases h with
    | net l openFile t net _ _ hnet =>
      exact hs.sound.step hnet fun fd ip heq => hl fd ip openFile t (heq ▸ rfl)
    | _ => exact hs.sound

omit [PriorityQueue Q (TimerHeap.Node Fd ℕ) TimerHeap.later] in
theorem worker_logged (s : WholeServer Q) (t : Tm) (l : NetLabel) :
    (s.logged t l).log.worker = s.log.log.worker := by
  unfold logged
  split
  · cases LoggingServer.call? s.net.server t _ <;> rfl
  · rfl

omit [PriorityQueue Q (TimerHeap.Node Fd ℕ) TimerHeap.later] in
/-- Only `init` starts the thread of the logger. -/
theorem worker_of_ownLog {l : NotifiedLogger.Label} {log : NotifiedLogger}
    (hown : s.ownLog l = true) (h : s.log.step l = some log)
    (hnone : s.log.log.worker = none) : log.log.worker = none := by
  have hwoken : (NotifiedLogger.woken s.log.log).worker = none := by
    rw [NotifiedLogger.woken, if_neg (by simp [hnone])]
    exact hnone
  cases l with
  | enqueue line => cases hown
  | init => cases hown
  | notifyOne => obtain ⟨-, ⟨⟩⟩ := Option.ite_none_right_eq_some.1 h; exact hwoken
  | notifyAll => obtain ⟨-, ⟨⟩⟩ := Option.ite_none_right_eq_some.1 h; exact hwoken
  | shutdown =>
    obtain ⟨s₁, hcontrol, rfl⟩ := Option.map_eq_some_iff.1 h
    obtain ⟨-, log, hlog, rfl⟩ := NotifiedLogger.controlStep_eq_some hcontrol
    obtain ⟨-, hlog⟩ := Option.ite_none_left_eq_some.1 hlog
    split_ifs at hlog <;> cases hlog <;> exact hnone
  | join =>
    obtain ⟨-, log, hlog, rfl⟩ := NotifiedLogger.controlStep_eq_some h
    cases Logger.join_cases hlog with
    | join _ _ => exact hnone
    | joined _ _ => rfl
  | worker =>
    obtain ⟨-, h⟩ := Option.ite_none_left_eq_some.1 h
    simp [Logger.workerStep, hnone] at h
  | wake =>
    obtain ⟨hasleep, -⟩ := Option.ite_none_right_eq_some.1 h
    rw [hnone] at hasleep
    cases hasleep
  | flush n => simp [NotifiedLogger.step, Logger.flushStep, hnone] at h

/-- When `stop` has returned, the logger has been shut down. -/
theorem log_stopped_of_reachable
    (h : (lts (Q := Q) htmlRoot sql poolSize idle users₀ old).Reachable s)
    (hstopped : s.net.server.main = .stopped) : s.log.log.worker = none := by
  refine LTS.ReachableIf.invariant (I := fun s : WholeServer Q =>
    s.net.server.main = .stopped → s.log.log.worker = none) h nofun ?_ hstopped
  intro s l s' _ hs _ hstep hm
  cases step_cases hstep with
  | net l openFile t net _ hwaits hnet =>
    rw [worker_logged]
    rcases Network.server_or_eq hnet with ⟨l, rfl⟩ | hsame
    · rcases (LoggingServer.main_of_step (Network.server_cases hnet).2.1).2 hm with
        hbefore | ⟨hbefore, rfl⟩
      · exact hs hbefore
      · -- the section that closes the connections waits for the join of the logger
        simp only [waits, Bool.or_eq_false_iff] at hwaits
        simpa [hbefore] using hwaits.2
    · exact hs (hsame ▸ hm)
  | log l log hown hlog => exact worker_of_ownLog hown hlog (hs hm)
  | _ => exact hs hm

/-! ### Some thread has a step -/

theorem exists_net (sql : Sql) (poolSize : ℕ) {l : NetLabel} {net : Network Q}
    (hready : s.auth.server.pool.phase = .ready) (hwaits : s.waits l = false)
    (openFile : OpenFile Id) (t : Tm)
    (h : s.net.step (s.reply htmlRoot openFile l) idle l = some net) :
    ∃ s', s.step htmlRoot sql poolSize idle (.net l openFile t) = some s' := by
  refine ⟨{ s with net, log := s.logged t l, routing := s.moved net l }, ?_⟩
  simp only [step, hready, hwaits, h, ne_eq, not_true_eq_false, Bool.false_eq_true, or_self,
    if_false, Option.map_some]

/-- The first task goes on unless it waits for `route`. -/
theorem exists_task (hs : Started htmlRoot sql poolSize idle users₀ old fds s) {t : Task}
    {rest : List Task} (htasks : s.net.server.tasks = t :: rest)
    (hroute : toRoute t = none ∨ (s.response 0).isSome = true) :
    ∃ l s', s.Works l ∧ s.step htmlRoot sql poolSize idle l = some s' := by
  obtain ⟨r, net, hnet⟩ := Network.task_enabled
    (s.reply htmlRoot (fun _ => none) (.server (.task 0 .done))) idle hs.sound htasks
  have hwaits : s.waits (.server (.task 0 r)) = false := by
    simp only [waits, htasks, List.getElem?_cons_zero, Option.bind_some]
    rcases hroute with hroute | hroute
    · rw [hroute]
      rfl
    · rw [Option.isNone_eq_false_iff.2 hroute, Bool.and_false]
  obtain ⟨s', hstep⟩ := exists_net sql poolSize hs.ready hwaits (fun _ => none) ⟨0, 0, 0, 0, 0, 0⟩
    hnet
  have hworks : s.Works (.net (.server (.task 0 r)) (fun _ => none) ⟨0, 0, 0, 0, 0, 0⟩) := trivial
  exact ⟨_, s', hworks, hstep⟩

/-- A worker that has to call `route` does so. -/
theorem exists_route (hs : Started htmlRoot sql poolSize idle users₀ old fds s) {i : ℕ}
    {request : HttpRequest} (hroute : (s.net.server.tasks[i]?).bind toRoute = some request)
    (hahead : s.routing[i]? = some .ahead) :
    ∃ s', s.step htmlRoot sql poolSize idle (.route i none) = some s' := by
  obtain ⟨auth, hcall⟩ : ∃ auth, s.auth.step sql poolSize (.call (request, none)) = some auth := by
    refine Option.isSome_iff_exists.1 ?_
    simp [NotifiedAuth.step, AuthServer.step, hs.ready]
  refine ⟨{ s with auth, routing := s.routing.set i (.called s.auth.server.calls.length) }, ?_⟩
  simp only [step, hroute, hahead, hcall, Option.map_some]

/-- While a task is left or a call is under way, a worker goes on. -/
theorem exists_works (hsql : sql.Escapes) (hpos : 1 ≤ poolSize)
    (hs : Started htmlRoot sql poolSize idle users₀ old fds s)
    (hbusy : ¬ (s.auth.AllReturned ∧ s.net.server.queue = [] ∧ s.net.server.tasks = [])) :
    ∃ l s', s.Works l ∧ s.step htmlRoot sql poolSize idle l = some s' := by
  by_cases hreturned : s.auth.AllReturned
  · cases htasks : s.net.server.tasks with
    | nil =>
      have hqueue : s.net.server.queue ≠ [] := fun hqueue => hbusy ⟨hreturned, hqueue, htasks⟩
      obtain ⟨net, hnet⟩ := Network.start_enabled
        (s.reply htmlRoot (fun _ => none) (.server .start)) idle hqueue
      obtain ⟨s', hstep⟩ := exists_net sql poolSize hs.ready rfl (fun _ => none)
        ⟨0, 0, 0, 0, 0, 0⟩ hnet
      have hworks : s.Works (.net (.server .start) (fun _ => none) ⟨0, 0, 0, 0, 0, 0⟩) := trivial
      exact ⟨_, s', hworks, hstep⟩
    | cons t rest =>
      cases hroute : toRoute t with
      | none => exact exists_task hs htasks (.inl hroute)
      | some request =>
        have hrouted := routed_of_reachable hsql hs.reachable
        have hlength := hrouted.length
        rw [htasks, List.length_cons] at hlength
        obtain ⟨r, routing, hrouting⟩ := List.exists_cons_of_length_eq_add_one hlength
        have hfirst : s.routing[0]? = some r := by rw [hrouting]; rfl
        cases r with
        | ahead =>
          obtain ⟨s', hstep⟩ := exists_route (i := 0) hs (by rw [htasks]; exact hroute) hfirst
          exact ⟨.route 0 none, s', trivial, hstep⟩
        | called k =>
          -- its call would be under way
          obtain ⟨c, hc⟩ := hrouted.called k (hrouting ▸ List.mem_cons_self)
          cases hreturned _ (List.mem_of_getElem? hc)
        | returned response =>
          exact exists_task hs htasks (.inr (by simp only [WholeServer.response, hfirst]; rfl))
  · obtain ⟨l, auth, hown, hauth⟩ := NotifiedAuth.exists_own hsql hpos (reachable_auth hs.reachable)
      hs.ready hreturned
    have hl : ownAuth l = true := by cases l <;> first | rfl | exact hown.elim
    refine ⟨.auth l, { s with auth, routing := s.answered l }, hown, ?_⟩
    simp only [step, hl, if_true, hauth, Option.map_some]

/-- The logger goes on while `stop` waits for it. -/
theorem exists_log (h : (lts (Q := Q) htmlRoot sql poolSize idle users₀ old).Reachable s)
    (hwaits : s.waits (.server (.main .done)) = true) : ∃ l s', s.log.Own l ∧
      s.step htmlRoot sql poolSize idle (.log l) = some s' := by
  have hgoes : ∀ l log, s.ownLog l = true → s.log.Own l → s.log.step l = some log →
      ∃ l s', s.log.Own l ∧ s.step htmlRoot sql poolSize idle (.log l) = some s' :=
    fun l log hown hl hlog => ⟨l, { s with log }, hl, by
      simp only [step, hown, if_true, hlog, Option.map_some]⟩
  simp only [waits, Bool.or_eq_true, Bool.and_eq_true, decide_eq_true_eq] at hwaits
  rcases hwaits with ⟨-, hone⟩ | ⟨hm, hworker⟩
  · exact hgoes .notifyOne { s.log with
      log := NotifiedLogger.woken s.log.log, one := s.log.one - 1 } rfl id (if_pos hone)
  · obtain ⟨m, hm'⟩ : ∃ m, ((NotifiedLogger.lts old).record {} NotifiedLogger.write).Reachable
        (s.log, m) := LTS.exists_ledger (reachable_log h)
    have hlogs := Logger.logs_of_reachable (NotifiedLogger.reachable_log hm')
    cases hrunning : s.log.log.running with
    | true =>
      cases hall : s.log.all with
      | true => exact hgoes .notifyAll { s.log with
          log := NotifiedLogger.woken s.log.log, all := false } rfl id (if_pos hall)
      | false =>
        have hjoining : s.log.log.joining = false := by
          by_contra hjoining
          rw [hlogs.stopped (by simpa using hjoining)] at hrunning
          cases hrunning
        obtain ⟨log, hlog⟩ : ∃ log, s.log.step .shutdown = some log := by
          refine Option.isSome_iff_exists.1 ?_
          simp [NotifiedLogger.step, NotifiedLogger.controlStep, hall, Logger.step,
            Logger.shutdownStep, hjoining, hrunning]
        exact hgoes .shutdown log (by simp [ownLog, hm, hrunning])
          (fun hidle => Bool.false_ne_true (hidle.symm.trans hrunning)) hlog
    | false =>
      have hjoining : s.log.log.joining = true := by
        by_contra hjoining
        rw [hlogs.started.2 ⟨hrunning, by simpa using hjoining⟩] at hworker
        cases hworker
      obtain ⟨l, log, hl, hlog⟩ :=
        NotifiedLogger.exists_owed (NotifiedLogger.reachable_joining hm' hjoining)
      refine hgoes l log ?_ ?_ hlog
      · cases l <;> first | rfl | exact hl.elim
      · cases l with
        | worker => exact fun hidle => Bool.false_ne_true (hrunning.symm.trans hidle.2.1)
        | _ => first | exact id | exact hl.elim

/-- The main thread goes on, or the logger that it waits for. -/
theorem exists_main (openFile : OpenFile Id) (t : Tm)
    (hs : Started htmlRoot sql poolSize idle users₀ old fds s) {r : MainSys} {net : Network Q}
    (h : s.net.step (s.reply htmlRoot openFile (.server (.main r))) idle (.server (.main r)) =
      some net) :
    (∃ s', s.step htmlRoot sql poolSize idle (.net (.server (.main r)) openFile t) = some s') ∨
      (s.net.server.main = .join ∨ s.net.server.main = .shutdown) ∧ ∃ l s', s.log.Own l ∧
        s.step htmlRoot sql poolSize idle (.log l) = some s' := by
  cases hwaits : s.waits (.server (.main r)) with
  | false => exact .inl (exists_net sql poolSize hs.ready hwaits openFile t h)
  | true =>
    have hdone : r = .done := by
      cases r <;> first | rfl | cases hwaits
    subst hdone
    refine .inr ⟨?_, exists_log hs.reachable hwaits⟩
    simp only [waits, Bool.or_eq_true, Bool.and_eq_true, decide_eq_true_eq] at hwaits
    exact hwaits.imp And.left And.left

/-! ### Rest -/

/-- A program that is not at rest has a step for the clients. -/
theorem exists_serves (hsql : sql.Escapes) (hpos : 1 ≤ poolSize)
    (hs : Started htmlRoot sql poolSize idle users₀ old fds s) (hrest : ¬ s.AtRest) :
    ∃ l s', s.Serves l ∧ s.step htmlRoot sql poolSize idle l = some s' := by
  by_cases hbusy : s.auth.AllReturned ∧ s.net.server.queue = [] ∧ s.net.server.tasks = []
  · obtain ⟨hreturned, hqueue, htasks⟩ := hbusy
    have hnet : ¬ s.net.AtRest := fun hnet => hrest ⟨hnet, hreturned⟩
    obtain ⟨r, net, hserves, hstep⟩ := Network.exists_serves
      (s.reply htmlRoot (fun _ => none) (.server (.main .done))) idle hs.sound
      (closable_of_reachable hs.reachable) hqueue htasks hnet
    rcases exists_main (fun _ => none) ⟨0, 0, 0, 0, 0, 0⟩ hs hstep with
      ⟨s', hs'⟩ | ⟨hstopping, l, s', hl, hs'⟩
    · exact ⟨.net (.server (.main r)) (fun _ => none) ⟨0, 0, 0, 0, 0, 0⟩, s', hserves, hs'⟩
    · have halert : s.net.Alert := by
        by_contra halert
        refine hnet ⟨?_, hqueue, htasks, halert⟩
        rcases hstopping with hm | hm <;> rw [hm] <;> rfl
      exact ⟨.log l, s', ⟨⟨halert, hstopping⟩, hl⟩, hs'⟩
  · obtain ⟨l, s', hl, hs'⟩ := exists_works hsql hpos hs hbusy
    exact ⟨l, s', hl.serves, hs'⟩

theorem serves_rank (hsql : sql.Escapes)
    (hs : Started htmlRoot sql poolSize idle users₀ old fds s) (hl : s.Serves l)
    (h : s.step htmlRoot sql poolSize idle l = some s') :
    s'.rank fds (s'.net.alertPass fds) (s'.heldRank fds) <
      s.rank fds (s.net.alertPass fds) (s.heldRank fds) := by
  cases step_cases h with
  | net l openFile t net _ _ hnet =>
    exact rank_lt_of_net (Network.serves_rank hs.sound
      (s.closeAfterWrite_reply_nil htmlRoot openFile l) hl hnet)
  | route i fault request auth _ hi _ => exact rank_lt_of_routing rfl (count_called hi)
  | auth l auth _ hauth =>
    refine rank_lt_of_auth rfl ?_ (NotifiedAuth.rank_lt hsql (reachable_auth hs.reachable) hl hauth)
    exact s.count_answered l
  | log l log _ hlog =>
    obtain ⟨⟨halert, hstopping⟩, hl⟩ := hl
    have hlt := NotifiedLogger.left_lt hl hlog
    refine rank_lt_of_log rfl rfl rfl ?_
    have halert := hs.sound.alert_iff.1 halert
    rw [heldRank, heldRank, if_pos ⟨halert, hstopping⟩, if_pos ⟨halert, hstopping⟩]
    exact hlt

omit [PriorityQueue Q (TimerHeap.Node Fd ℕ) TimerHeap.later] in
theorem logged_of_passive (s : WholeServer Q) (t : Tm) {l : NetLabel} (hl : Network.Passive l) :
    s.logged t l = s.log := by
  cases l with
  | server l => cases l <;> first | rfl | exact hl.elim
  | _ => rfl

omit [PriorityQueue Q (TimerHeap.Node Fd ℕ) TimerHeap.later] in
/-- A step of nobody starts no task. -/
theorem moved_of_idle {net : Network Q} {l : NetLabel} (hl : s.net.Idle l) :
    s.moved net l = s.routing := by
  cases l with
  | server l => cases l <;> first | rfl | exact hl.elim
  | _ => rfl

omit [PriorityQueue Q (TimerHeap.Node Fd ℕ) TimerHeap.later] in
theorem answered_of_idle {l : NotifiedAuth.Label} (hl : s.auth.Idle l) :
    s.answered l = s.routing := by
  cases l <;> first | rfl | exact hl.elim

omit [PriorityQueue Q (TimerHeap.Node Fd ℕ) TimerHeap.later] in
/-- Nobody waits for the logger with an event before it. -/
theorem heldRank_of_silent (h : ¬ ((∃ fd ∈ fds, s.net.signals fd = true) ∧
    (s.net.server.main = .join ∨ s.net.server.main = .shutdown))) : s.heldRank fds = 0 :=
  if_neg h

/-- A step of nobody raises no event, and while there is one the main thread does not move. -/
theorem heldRank_of_idle {l : NetLabel} {net : Network Q} {t : Tm} {reply : Bytes → Answer}
    (hn : Network.Sound fds s.net) (hl : s.net.Idle l) (h : s.net.step reply idle l = some net) :
    heldRank fds { s with net, log := s.logged t l, routing := s.moved net l } ≤
      s.heldRank fds := by
  obtain ⟨hpasses, hpassive | halert⟩ := Network.idle_cases hn hl h
  · have hmain := (Network.main_of_passive hpassive h).1
    have hlog := s.logged_of_passive t hpassive
    unfold heldRank
    split_ifs with hheld' hheld
    · rw [hlog]
    · obtain ⟨⟨fd, hfd, hsignals⟩, hstopping⟩ := hheld'
      exact absurd ⟨⟨fd, hfd, hpasses.signals fd hsignals⟩, hmain ▸ hstopping⟩ hheld
    · exact Nat.zero_le _
    · exact Nat.le_refl _
  · rw [heldRank_of_silent]
    · exact Nat.zero_le _
    · rintro ⟨⟨fd, -, hsignals⟩, -⟩
      exact halert ⟨fd, hpasses.signals fd hsignals⟩

theorem idle_rank (hs : Started htmlRoot sql poolSize idle users₀ old fds s) (hl : s.Idle l)
    (h : s.step htmlRoot sql poolSize idle l = some s') :
    s'.rank fds (s'.net.alertPass fds) (s'.heldRank fds) ≤
      s.rank fds (s.net.alertPass fds) (s.heldRank fds) := by
  cases step_cases h with
  | net l openFile t net _ _ hnet =>
    exact rank_le (Network.idle_rank hs.sound hl hnet) (moved_of_idle hl) rfl
      (heldRank_of_idle hs.sound hl hnet)
  | route _ _ _ _ _ _ _ => exact hl.elim
  | auth l auth _ hauth =>
    exact rank_le le_rfl (answered_of_idle hl) (NotifiedAuth.rank_idle hl hauth) le_rfl
  | log l log _ hlog =>
    refine rank_le le_rfl rfl rfl ?_
    rcases hl with hheld | hl
    · have hnone : ¬ ((∃ fd ∈ fds, s.net.signals fd = true) ∧
          (s.net.server.main = .join ∨ s.net.server.main = .shutdown)) :=
        fun hboth => hheld ⟨hs.sound.alert_iff.2 hboth.1, hboth.2⟩
      rw [heldRank_of_silent hnone, heldRank_of_silent (s := { s with log }) hnone]
    · rw [heldRank, heldRank, NotifiedLogger.left_idle hl hlog]

omit [PriorityQueue Q (TimerHeap.Node Fd ℕ) TimerHeap.later] in
theorem Serves.not_accepted (hl : s.Serves l) (fd : Fd) (ip : Bytes) (openFile : OpenFile Id)
    (t : Tm) : l ≠ .net (.server (.main (.accepted fd ip))) openFile t := by
  rintro rfl
  exact hl.1 fd ip rfl

theorem Idle.not_accepted (hl : s.Idle l) (h : s.step htmlRoot sql poolSize idle l = some s')
    (fd : Fd) (ip : Bytes) (openFile : OpenFile Id) (t : Tm) :
    l ≠ .net (.server (.main (.accepted fd ip))) openFile t := by
  rintro rfl
  cases step_cases h with
  | net _ _ _ net _ _ hnet =>
    have hl : s.net.Idle (.server (.main (.accepted fd ip))) := hl
    exact hl.not_accepted hnet fd ip rfl

/-- **The program comes to rest.**  From every state on behind the start, while the clients are
silent, the steps for them come to an end, in whatever order the threads take them, with any number
of idle steps between: until no task is left, no call of `route` is under way, the main thread
handles no event and no event can be delivered, there is a step for the clients that needs nobody
else. -/
theorem comes_to_rest (hsql : sql.Escapes) (hpos : 1 ≤ poolSize)
    (h : (lts (Q := Q) htmlRoot sql poolSize idle users₀ old).Reachable s)
    (hready : s.auth.server.pool.phase = .ready) :
    (lts (Q := Q) htmlRoot sql poolSize idle users₀ old).InevitableAmid Serves Serves Idle AtRest
      s := by
  obtain ⟨fds, hn⟩ := sound_of_reachable h
  refine LTS.inevitableAmid_of_rank (Started htmlRoot sql poolSize idle users₀ old fds)
    (fun s => s.rank fds (s.net.alertPass fds) (s.heldRank fds)) ?_ ?_ ?_ ⟨h, hready, hn⟩
  · intro s l s' hs hl hstep
    exact ⟨hs.step hsql hstep (hl.not_accepted hstep), idle_rank hs hl hstep⟩
  · intro s l s' hs hl hstep _
    exact .inr ⟨hs.step hsql hstep hl.not_accepted, serves_rank hsql hs hl hstep⟩
  · intro s hs hrest
    obtain ⟨l, s', hl, hstep⟩ := exists_serves hsql hpos hs hrest
    refine ⟨l, s', hl, hstep, ?_⟩
    rintro rfl
    exact lt_irrefl _ (serves_rank hsql hs hl hstep)

/-! ### `stop` -/

/-- A program that has not stopped has a step. -/
theorem exists_alone (hsql : sql.Escapes) (hpos : 1 ≤ poolSize)
    (hs : Started htmlRoot sql poolSize idle users₀ old fds s) (hstopped : ¬ s.Stopped) :
    ∃ l s', s.Alone l ∧ s.step htmlRoot sql poolSize idle l = some s' := by
  by_cases hbusy : s.auth.AllReturned ∧ s.net.server.queue = [] ∧ s.net.server.tasks = []
  · obtain ⟨hreturned, hqueue, htasks⟩ := hbusy
    have hnet : ¬ s.net.Stopped := fun hnet =>
      hstopped ⟨hnet, hreturned, log_stopped_of_reachable hs.reachable hnet.main⟩
    obtain ⟨r, net, halone, hstep⟩ := Network.exists_alone
      (s.reply htmlRoot (fun _ => none) (.server (.main .done))) idle hs.sound
      (closable_of_reachable hs.reachable) hqueue htasks hnet
    rcases exists_main (fun _ => none) ⟨0, 0, 0, 0, 0, 0⟩ hs hstep with
      ⟨s', hs'⟩ | ⟨-, l, s', hl, hs'⟩
    · exact ⟨.net (.server (.main r)) (fun _ => none) ⟨0, 0, 0, 0, 0, 0⟩, s', halone, hs'⟩
    · exact ⟨.log l, s', hl, hs'⟩
  · obtain ⟨l, s', hl, hs'⟩ := exists_works hsql hpos hs hbusy
    exact ⟨l, s', hl.alone, hs'⟩

theorem alone_rank (hsql : sql.Escapes)
    (hs : Started htmlRoot sql poolSize idle users₀ old fds s)
    (hrunning : s.net.server.running = false) (hl : s.Alone l)
    (h : s.step htmlRoot sql poolSize idle l = some s') :
    s'.rank fds s'.net.server.passing s'.log.left <
      s.rank fds s.net.server.passing s.log.left := by
  cases step_cases h with
  | net l openFile t net _ _ hnet =>
    exact rank_lt_of_net (Network.alone_rank hs.sound
      (s.closeAfterWrite_reply_nil htmlRoot openFile l) hrunning hl hnet)
  | route i fault request auth _ hi _ => exact rank_lt_of_routing rfl (count_called hi)
  | auth l auth _ hauth =>
    refine rank_lt_of_auth rfl ?_ (NotifiedAuth.rank_lt hsql (reachable_auth hs.reachable) hl hauth)
    exact s.count_answered l
  | log l log _ hlog => exact rank_lt_of_log rfl rfl rfl (NotifiedLogger.left_lt hl hlog)

theorem passive_rank (hl : s.Passive l) (h : s.step htmlRoot sql poolSize idle l = some s') :
    s'.rank fds s'.net.server.passing s'.log.left ≤
      s.rank fds s.net.server.passing s.log.left := by
  cases step_cases h with
  | net l openFile t net _ _ hnet =>
    exact rank_le (Network.passive_rank hl hnet) (moved_of_idle (Network.idle_of_passive hl)) rfl
      (by rw [s.logged_of_passive t hl])
  | route _ _ _ _ _ _ _ => exact hl.elim
  | auth l auth _ hauth =>
    exact rank_le le_rfl (answered_of_idle hl) (NotifiedAuth.rank_idle hl hauth) le_rfl
  | log l log _ hlog => exact rank_le le_rfl rfl rfl (NotifiedLogger.left_idle hl hlog).le

theorem running_step (h : s.step htmlRoot sql poolSize idle l = some s')
    (hrunning : s.net.server.running = false) : s'.net.server.running = false := by
  cases step_cases h with
  | net l openFile t net _ _ hnet =>
    rcases Network.server_or_eq hnet with ⟨l, rfl⟩ | hsame
    · exact Network.running_step (Network.server_cases hnet).2.1 hrunning
    · exact hsame ▸ hrunning
  | _ => exact hrunning

/-- **`stop` comes to its end.**  From every state on in which the server no longer runs, while the
clients are silent, the steps of the program come to an end, in whatever order the threads take
them: until `stop` has returned, with the lines of the log written, no task or call of `route` left
and every descriptor closed, there is a step that needs nobody else. -/
theorem comes_to_stop (hsql : sql.Escapes) (hpos : 1 ≤ poolSize)
    (h : (lts (Q := Q) htmlRoot sql poolSize idle users₀ old).Reachable s)
    (hready : s.auth.server.pool.phase = .ready) (hstop : s.net.server.running = false) :
    (lts (Q := Q) htmlRoot sql poolSize idle users₀ old).InevitableAmid Alone Alone Passive Stopped
      s := by
  obtain ⟨fds, hn⟩ := sound_of_reachable h
  refine LTS.inevitableAmid_of_rank
    (fun s => Started htmlRoot sql poolSize idle users₀ old fds s ∧
      s.net.server.running = false)
    (fun s => s.rank fds s.net.server.passing s.log.left) ?_ ?_ ?_ ⟨⟨h, hready, hn⟩, hstop⟩
  · rintro s l s' ⟨hs, hrunning⟩ hl hstep
    refine ⟨⟨hs.step hsql hstep ?_, running_step hstep hrunning⟩, passive_rank hl hstep⟩
    rintro fd ip openFile t rfl
    exact hl
  · rintro s l s' ⟨hs, hrunning⟩ hl hstep -
    refine .inr ⟨⟨hs.step hsql hstep ?_, running_step hstep hrunning⟩,
      alone_rank hsql hs hrunning hl hstep⟩
    rintro fd ip openFile t rfl
    exact hl.1 fd ip rfl
  · rintro s ⟨hs, hrunning⟩ hstopped
    obtain ⟨l, s', hl, hstep⟩ := exists_alone hsql hpos hs hstopped
    refine ⟨l, s', hl, hstep, ?_⟩
    rintro rfl
    exact lt_irrefl _ (alone_rank hsql hs hrunning hl hstep)

end Run

/-! ### A sample run -/

/-- One handle, no files and no accounts, an empty log file and an idle timeout of 30. -/
abbrev sample : LTS (WholeServer (TimerHeap.SortedNodes ℕ ℕ)) Label :=
  lts (.ofString "webroot") Dialect.sql 1 30 .empty []

/-- A request for an account. -/
def accountRequest : Bytes :=
  .ofString "POST /register HTTP/1.1\r\nContent-Length: 21\r\n\r\nusername=a&password=b"

/-- A worker reads the request. -/
def accountSteps : List MiniServer.Label :=
  [.start, .task 0 .done, .task 0 (.read (.data accountRequest)), .task 0 .done,
    .task 0 (.read .again), .task 0 .done, .task 0 .done, .task 0 .done]

/-- A client asks for an account; the call of `route` for it has the only lease. -/
def accountRun : List Label :=
  [.auth (.pool .init), .auth (.pool (.connect (.connected 1))), .auth (.pool .schemaLease),
    .auth (.pool (.schema true))] ++
  (NetLabel.send 0 accountRequest :: (HttpServer.dispatchRun ++ accountSteps).map .server).map
    (fun l => .net l (fun _ => none) ⟨2024, 1, 1, 0, 0, 0⟩) ++
  [.route 0 none, .auth (.step 0)]

theorem comes_to_rest_account : ∃ s, sample.Reachable s ∧ s.routing = [.called 0] ∧
    s.auth.threads = [.holding] ∧ sample.InevitableAmid Serves Serves Idle AtRest s := by
  obtain ⟨s, hrun, hready, hrouting, hthreads⟩ :
      ∃ s ∈ sample.run sample.init accountRun, s.auth.server.pool.phase = .ready ∧
        s.routing = [.called 0] ∧ s.auth.threads = [.holding] := by decide +kernel
  have h := LTS.reachable_of_run hrun
  exact ⟨s, h, hrouting, hthreads, comes_to_rest Dialect.escapes (Nat.le_refl 1) h hready⟩

theorem comes_to_stop_account : ∃ s, sample.Reachable s ∧ s.routing = [.called 0] ∧
    s.log.log.worker = some .asleep ∧
    sample.InevitableAmid Alone Alone Passive Stopped s := by
  obtain ⟨s, hrun, hready, hstop, hrouting, hworker⟩ :
      ∃ s ∈ sample.run sample.init (accountRun ++
          [.log .worker, .net (.server .requestStop) (fun _ => none) ⟨2024, 1, 1, 0, 0, 0⟩]),
        s.auth.server.pool.phase = .ready ∧ s.net.server.running = false ∧
          s.routing = [.called 0] ∧ s.log.log.worker = some .asleep := by decide +kernel
  have h := LTS.reachable_of_run hrun
  exact ⟨s, h, hrouting, hworker,
    comes_to_stop Dialect.escapes (Nat.le_refl 1) h hready hstop⟩

end WholeServer

end MiniServer
