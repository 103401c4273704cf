import MiniServer.Log.Notify
import MiniServer.Server.LogFile
import MiniServer.Server.Rest
import MiniServer.Users.Waits

/-!
# The whole program

`WholeServer` is the server on its sockets, the user service with its pool and MySQL, and the
logger, with their threads.  A worker whose request goes to `router_.route` queues its response when
this call has returned, so it waits when the call waits for a lease; a call of the logger queues a
line and owes a notification; and `stop` closes the connections behind `logger_.shutdown()`.

The runs of its parts are runs of `NotifiedAuth` (`reachable_auth`) and of `NotifiedLogger`
(`reachable_log`), and what holds of the server on its sockets with any answers holds here
(`sound_of_reachable`, `closable_of_reachable`).  The files may change between two steps.
-/

namespace MiniServer

/-- The request of a raw request that goes to `router_.route`. -/
def routedRequest (rawRequest : Bytes) : Option HttpRequest :=
  match ({} : HttpRequest).parse rawRequest with
  | (true, request) => if RequestRouter.handles request then some request else none
  | (false, _) => none

/-- The answer to a raw request, with the response of `route` when the request goes there. -/
def Site.answerWith (site : Site Id) (routed : Option RoutedResponse) (rawRequest : Bytes) :
    Answer :=
  match routedRequest rawRequest, routed with
  | some request, some routed => routedAnswer request routed
  | _, _ => site.reply rawRequest

/-- With the response that the service gives at once, it is the answer of the site. -/
theorem Site.answerWith_route (site : Site Id) (rawRequest : Bytes) :
    site.answerWith ((routedRequest rawRequest).map fun request =>
      Id.run (RequestRouter.route site.users request)) rawRequest = site.reply rawRequest := by
  unfold answerWith
  cases hrequest : routedRequest rawRequest with
  | none => rfl
  | some request =>
    unfold routedRequest at hrequest
    simp only [Option.map_some, reply, answer]
    split at hrequest
    · rename_i _ hparse
      obtain ⟨hhandles, ⟨⟩⟩ := Option.ite_none_right_eq_some.1 hrequest
      simp only [hparse, answerRequest, hhandles, if_true]
      rfl
    · cases hrequest

/-- How far a worker is with `router_.route`. -/
inductive Routing where
  /-- It has not called it. -/
  | ahead
  /-- It is in a call of the user service. -/
  | called (k : ℕ)
  /-- It has the response. -/
  | returned (response : RoutedResponse)
  deriving DecidableEq, Repr

/-- The server on its sockets, with the user service and the logger. -/
structure WholeServer (Q : Type) where
  net : Network Q
  auth : NotifiedAuth
  log : NotifiedLogger
  /-- The calls of `route` of the tasks that a worker runs. -/
  routing : List Routing := []

namespace WholeServer

/-- The steps of the threads, the clients and the kernel. -/
inductive Label where
  /-- A step of the server or its clients, with the files and the local time of that moment. -/
  | net (l : NetLabel) (openFile : OpenFile Id) (t : Tm)
  /-- A worker calls `route`; what will go wrong in MySQL is chosen here. -/
  | route (i : ℕ) (fault : Option Fault)
  /-- A step of the pool or of a call of `route`. -/
  | auth (l : NotifiedAuth.Label)
  /-- A step of the logger, or of the main thread in `logger_.shutdown()`. -/
  | log (l : NotifiedLogger.Label)

variable {Q : Type}

/-- The request that a task takes to `route`. -/
def toRoute (t : Task) : Option HttpRequest :=
  match t.pc with
  | .respond _ rawRequest => routedRequest rawRequest
  | _ => none

/-- The response that `route` has returned to worker `i`. -/
def response (s : WholeServer Q) (i : ℕ) : Option RoutedResponse :=
  match s.routing[i]? with
  | some (.returned response) => some response
  | _ => none

/-- The step has to wait for another part of the program: for the response of `route`, for the
notification at the end of a call of the logger, or for the end of `logger_.shutdown()`. -/
def waits (s : WholeServer Q) : NetLabel → Bool
  | .server (.task i _) =>
    ((s.net.server.tasks[i]?).bind toRoute).isSome && (s.response i).isNone
  | .server (.main .done) =>
    s.net.server.main = .join && 0 < s.log.one ||
      s.net.server.main = .shutdown && s.log.log.worker.isSome
  | _ => false

/-- What a step answers to a request. -/
def reply (s : WholeServer Q) (htmlRoot : Bytes) (openFile : OpenFile Id) :
    NetLabel → Bytes → Answer
  | .server (.task i _) => Site.answerWith ⟨htmlRoot, openFile, Site.empty.users⟩ (s.response i)
  | _ => Site.reply ⟨htmlRoot, openFile, Site.empty.users⟩

/-- The calls of `route` behind a step; a task that goes on has made none. -/
def moved (s : WholeServer Q) (net : Network Q) : NetLabel → List Routing
  | .server .start => s.routing ++ [.ahead]
  | .server (.task i _) =>
    s.routing.take i ++
      List.replicate (net.server.tasks.length + 1 - s.net.server.tasks.length) .ahead ++
      s.routing.drop (i + 1)
  | _ => s.routing

/-- The logger behind a step; a call of it owes a notification. -/
def logged (s : WholeServer Q) (t : Tm) : NetLabel → NotifiedLogger
  | .server l => (LoggingServer.call? s.net.server t l).elim s.log fun call =>
    { s.log with log := s.log.log.enqueue call.line, one := s.log.one + 1 }
  | _ => s.log

/-- The calls of `route` behind a step of the user service. -/
def answered (s : WholeServer Q) : NotifiedAuth.Label → List Routing
  | .returns k =>
    match s.auth.server.calls[k]? with
    | some (some ⟨_, .done response⟩) =>
      s.routing.map fun r => if r = .called k then .returned response else r
    | _ => s.routing
  | _ => s.routing

/-- The steps of the logger that are no calls of the server; `stop` calls `shutdown`. -/
def ownLog (s : WholeServer Q) : NotifiedLogger.Label → Bool
  | .enqueue _ | .init => false
  | .shutdown => s.net.server.main = .shutdown && s.log.log.running
  | _ => true

/-- The calls of `route` are those of the workers. -/
def ownAuth : NotifiedAuth.Label → Bool
  | .call _ => false
  | _ => true

section Step

variable [PriorityQueue Q (TimerHeap.Node Fd ℕ) TimerHeap.later]
variable (htmlRoot : Bytes) (sql : Sql) (poolSize idle : ℕ)

/-- A step; the server starts when `init` of the pool has returned `true`. -/
def step (s : WholeServer Q) : Label → Option (WholeServer Q)
  | .net l openFile t =>
    if s.auth.server.pool.phase ≠ .ready ∨ s.waits l = true then none
    else (s.net.step (s.reply htmlRoot openFile l) idle l).map fun net =>
      { s with net, log := s.logged t l, routing := s.moved net l }
  | .route i fault =>
    match (s.net.server.tasks[i]?).bind toRoute, s.routing[i]? with
    | some request, some .ahead =>
      (s.auth.step sql poolSize (.call (request, fault))).map fun auth =>
        { s with auth, routing := s.routing.set i (.called s.auth.server.calls.length) }
    | _, _ => none
  | .auth l =>
    if ownAuth l then
      (s.auth.step sql poolSize l).map fun auth => { s with auth, routing := s.answered l }
    else none
  | .log l => if s.ownLog l then (s.log.step l).map fun log => { s with log } else none

/-- The program behind `logger_.init` in `start`, with the table that MySQL holds and a log file
that may exist already. -/
def lts (users : Users) (old : Bytes) : LTS (WholeServer Q) Label where
  init :=
    { net := { server := { timers := TimerHeap.new } }
      auth := { server := { users } }
      log := { log := { running := true, worker := some .lock, file := old } } }
  step := step htmlRoot sql poolSize idle

end Step

/-! ### One step -/

section Run

variable [PriorityQueue Q (TimerHeap.Node Fd ℕ) TimerHeap.later]

/-- What a step does. -/
inductive StepCase (htmlRoot : Bytes) (sql : Sql) (poolSize idle : ℕ) (s : WholeServer Q) :
    Label → WholeServer Q → Prop
  | net (l : NetLabel) (openFile : OpenFile Id) (t : Tm) (net : Network Q) :
      s.auth.server.pool.phase = .ready → s.waits l = false →
      s.net.step (s.reply htmlRoot openFile l) idle l = some net →
      StepCase htmlRoot sql poolSize idle s (.net l openFile t)
        { s with net, log := s.logged t l, routing := s.moved net l }
  | route (i : ℕ) (fault : Option Fault) (request : HttpRequest) (auth : NotifiedAuth) :
      (s.net.server.tasks[i]?).bind toRoute = some request → s.routing[i]? = some .ahead →
      s.auth.step sql poolSize (.call (request, fault)) = some auth →
      StepCase htmlRoot sql poolSize idle s (.route i fault)
        { s with auth, routing := s.routing.set i (.called s.auth.server.calls.length) }
  | auth (l : NotifiedAuth.Label) (auth : NotifiedAuth) : ownAuth l = true →
      s.auth.step sql poolSize l = some auth →
      StepCase htmlRoot sql poolSize idle s (.auth l) { s with auth, routing := s.answered l }
  | log (l : NotifiedLogger.Label) (log : NotifiedLogger) : s.ownLog l = true →
      s.log.step l = some log → StepCase htmlRoot sql poolSize idle s (.log l) { s with log }

variable {htmlRoot : Bytes} {sql : Sql} {poolSize idle : ℕ} {users₀ : Users} {old : Bytes}
variable {s s' : WholeServer Q} {l : Label}

theorem step_cases (h : s.step htmlRoot sql poolSize idle l = some s') :
    StepCase htmlRoot sql poolSize idle s l s' := by
  cases l with
  | net l openFile t =>
    obtain ⟨hgoes, h⟩ := Option.ite_none_left_eq_some.1 h
    obtain ⟨hready, hwaits⟩ := not_or.1 hgoes
    obtain ⟨net, hnet, rfl⟩ := Option.map_eq_some_iff.1 h
    exact .net l openFile t net (not_not.1 hready) (by simpa using hwaits) hnet
  | route i fault =>
    simp only [step] at h
    split at h
    · obtain ⟨auth, hauth, rfl⟩ := Option.map_eq_some_iff.1 h
      exact .route i fault _ auth ‹_› ‹_› hauth
    · cases h
  | auth l =>
    obtain ⟨hown, h⟩ := Option.ite_none_right_eq_some.1 h
    obtain ⟨auth, hauth, rfl⟩ := Option.map_eq_some_iff.1 h
    exact .auth l auth hown hauth
  | log l =>
    obtain ⟨hown, h⟩ := Option.ite_none_right_eq_some.1 h
    obtain ⟨log, hlog, rfl⟩ := Option.map_eq_some_iff.1 h
    exact .log l log hown hlog

/-! ### The parts -/

/-- **The user service runs as it does alone.** -/
theorem reachable_auth
    (h : (lts (Q := Q) htmlRoot sql poolSize idle users₀ old).Reachable s) :
    (NotifiedAuth.lts sql poolSize users₀).Reachable s.auth := by
  refine h.refine (B := NotifiedAuth.lts sql poolSize users₀) (f := WholeServer.auth) rfl ?_
  intro s l s' _ hstep
  cases step_cases hstep with
  | route i fault request auth _ _ hauth =>
    exact ⟨[.call (request, fault)], LTS.run_singleton hauth⟩
  | auth l auth _ hauth => exact ⟨[l], LTS.run_singleton hauth⟩
  | _ => exact ⟨[], rfl⟩

omit [PriorityQueue Q (TimerHeap.Node Fd ℕ) TimerHeap.later] in
theorem logged_cases (s : WholeServer Q) (t : Tm) (l : NetLabel) :
    s.logged t l = s.log ∨ ∃ line, s.log.step (.enqueue line) = some (s.logged t l) := by
  unfold logged
  split
  · rename_i l
    cases LoggingServer.call? s.net.server t l with
    | none => exact .inl rfl
    | some call => exact .inr ⟨call.line, rfl⟩
  · exact .inl rfl

/-- **So does the logger.** -/
theorem reachable_log
    (h : (lts (Q := Q) htmlRoot sql poolSize idle users₀ old).Reachable s) :
    (NotifiedLogger.lts old).Reachable s.log := by
  refine LTS.ReachableIf.invariant (I := fun s : WholeServer Q =>
    (NotifiedLogger.lts old).Reachable s.log) h ?_ ?_
  · exact .step (l := .init) .init trivial rfl
  · intro s l s' _ hs _ hstep
    cases step_cases hstep with
    | net l openFile t net _ _ _ =>
      rcases logged_cases s t l with hsame | ⟨line, hline⟩
      · exact hsame ▸ hs
      · exact .step (l := .enqueue line) hs trivial hline
    | log l log _ hlog => exact .step hs trivial hlog
    | _ => exact hs

theorem sound_of_reachable
    (h : (lts (Q := Q) htmlRoot sql poolSize idle users₀ old).Reachable s) :
    ∃ fds, Network.Sound fds s.net := by
  have hinit : Network.Sound ∅ (Network.lts (Q := Q) Site.empty.reply idle).init := .init
  refine LTS.ReachableIf.invariant (I := fun s : WholeServer Q => ∃ fds, Network.Sound fds s.net) h
    ⟨∅, hinit⟩ ?_
  rintro s l s' - ⟨fds, hn⟩ - hstep
  cases step_cases hstep with
  | net l openFile t net _ _ hnet => exact hn.exists_step hnet
  | _ => exact ⟨fds, hn⟩

theorem closable_of_reachable
    (h : (lts (Q := Q) htmlRoot sql poolSize idle users₀ old).Reachable s) :
    HttpServer.Closable s.net.server := by
  have hinit : HttpServer.Closable (HttpServer.lts (Q := Q) Site.empty.reply idle).init := .init
  refine LTS.ReachableIf.invariant (I := fun s : WholeServer Q =>
    HttpServer.Closable s.net.server) h hinit ?_
  intro s l s' _ hs _ hstep
  cases step_cases hstep with
  | net l openFile t net _ _ hnet => exact Network.closable_step hs hnet
  | _ => exact hs

/-! ### The calls of the workers -/

omit [PriorityQueue Q (TimerHeap.Node Fd ℕ) TimerHeap.later] in
theorem mem_moved {net : Network Q} {l : NetLabel} {r : Routing} (h : r ∈ s.moved net l) :
    r ∈ s.routing ∨ r = .ahead := by
  unfold moved at h
  split at h
  · exact (List.mem_append.1 h).imp_right List.mem_singleton.1
  · rcases List.mem_append.1 h with h | h
    · rcases List.mem_append.1 h with h | h
      · exact .inl (List.mem_of_mem_take h)
      · exact .inr (List.mem_replicate.1 h).2
    · exact .inl (List.mem_of_mem_drop h)
  · exact .inl h

/-- The main thread neither starts nor ends a task. -/
theorem tasks_of_main {reply : Bytes → Answer} {s s' : HttpServer Q} {r : MainSys}
    (h : s.mainStep reply idle r = some s') : s'.tasks = s.tasks := by
  cases HttpServer.mainStep_cases h with
  | wait _ hev _ =>
    obtain ⟨files, rfl⟩ := HttpServer.deliverAll_eq hev
    rfl
  | @close _ _ _ s₁ _ _ hperform =>
    have htasks : s₁.tasks = s.tasks := by rw [HttpServer.perform_eq hperform]
    exact htasks
  | _ => rfl

/-- Every task of a worker has its place among the calls. -/
theorem length_moved {reply : Bytes → Answer} {net : Network Q} {l : NetLabel}
    (hlength : s.routing.length = s.net.server.tasks.length)
    (h : s.net.step reply idle l = some net) :
    (s.moved net l).length = net.server.tasks.length := by
  cases l with
  | server l =>
    obtain ⟨server, -, hserver, rfl⟩ := Network.exists_after h
    show _ = server.tasks.length
    cases l with
    | tick d => cases hserver; exact hlength
    | requestStop => cases hserver; exact hlength
    | main r =>
      rw [tasks_of_main hserver]
      exact hlength
    | start =>
      obtain ⟨t, queue, -, rfl⟩ := HttpServer.start_cases hserver
      simp [moved, hlength]
    | task i r =>
      obtain ⟨l₁, t, l₂, s₁, pc, htasks, hi, -, rfl⟩ := HttpServer.taskStep_cases hserver
      have hlt := (List.getElem?_eq_some_iff.1 hi).1
      have hle : (pc.map fun pc => { t with pc }).toList.length ≤ 1 := by cases pc <;> simp
      have hold : s.net.server.tasks.length = l₁.length + (l₂.length + 1) := by
        rw [htasks, List.length_append, List.length_cons]
      simp only [moved, Network.after, List.length_append, List.length_take, List.length_replicate,
        List.length_drop]
      omega
  | _ =>
    rw [(Network.server_or_eq h).resolve_left (by simp)]
    exact hlength

/-- A call that has not returned goes on, or returns with this step. -/
theorem call_of_auth {auth auth' : NotifiedAuth} {m : AuthServer.Ledger} {l : NotifiedAuth.Label}
    (hlinearized : AuthServer.Linearized sql users₀ auth.server m)
    (h : auth.step sql poolSize l = some auth') {k : ℕ} {c : UserCall}
    (hk : auth.server.calls[k]? = some (some c)) :
    (∃ c', auth'.server.calls[k]? = some (some c')) ∨ l = .returns k := by
  have hlt := (List.getElem?_eq_some_iff.1 hk).1
  have hnext : ∀ {j server}, auth.server.step sql poolSize (.step j) = some server →
      ∃ c', server.calls[k]? = some (some c') := by
    intro j server hserver
    obtain ⟨op, p, p', -, hcalls, -⟩ := AuthServer.call_cases hlinearized hserver
    rw [hcalls]
    by_cases hjk : j = k
    · subst hjk
      exact ⟨_, List.getElem?_set_self hlt⟩
    · exact ⟨c, (List.getElem?_set_ne hjk).trans hk⟩
  cases NotifiedAuth.step_cases h with
  | pool op server _ hserver =>
    obtain ⟨pool, -, rfl⟩ := Option.map_eq_some_iff.1 hserver
    exact .inl ⟨c, hk⟩
  | call op server hserver =>
    obtain ⟨-, ⟨⟩⟩ := Option.ite_none_right_eq_some.1 hserver
    exact .inl ⟨c, (List.getElem?_append_left hlt).trans hk⟩
  | acquire j pc server _ _ _ hserver => exact .inl (hnext hserver)
  | talk j server _ _ hserver => exact .inl (hnext hserver)
  | release j server _ _ hserver => exact .inl (hnext hserver)
  | returns j server _ hserver =>
    obtain ⟨op, response, hj, rfl⟩ := AuthServer.returns_cases hserver
    by_cases hjk : j = k
    · exact .inr (hjk ▸ rfl)
    · exact .inl ⟨c, (List.getElem?_set_ne hjk).trans hk⟩
  | _ => exact .inl ⟨c, hk⟩

/-- The workers and their calls of `route`. -/
structure Routed (s : WholeServer Q) : Prop where
  length : s.routing.length = s.net.server.tasks.length
  called : ∀ k, .called k ∈ s.routing → ∃ c, s.auth.server.calls[k]? = some (some c)

theorem Routed.step {m : AuthServer.Ledger} (hs : Routed s)
    (hlinearized : AuthServer.Linearized sql users₀ s.auth.server m)
    (h : s.step htmlRoot sql poolSize idle l = some s') : Routed s' := by
  cases step_cases h with
  | net l openFile t net _ _ hnet =>
    refine ⟨length_moved hs.length hnet, fun k hk => ?_⟩
    exact hs.called k ((mem_moved hk).resolve_right nofun)
  | route i fault request auth _ hi hauth =>
    refine ⟨(List.length_set).trans hs.length, fun k hk => ?_⟩
    cases NotifiedAuth.step_cases hauth with
    | call op server hserver =>
      obtain ⟨-, ⟨⟩⟩ := Option.ite_none_right_eq_some.1 hserver
      rcases List.mem_or_eq_of_mem_set hk with hk | hk
      · obtain ⟨c, hc⟩ := hs.called k hk
        exact ⟨c, (List.getElem?_append_left (List.getElem?_eq_some_iff.1 hc).1).trans hc⟩
      · cases hk
        exact ⟨_, List.getElem?_concat_length⟩
  | auth l auth hown hauth =>
    have hcalled : ∀ k, .called k ∈ s.routing → l ≠ .returns k →
        ∃ c, auth.server.calls[k]? = some (some c) := by
      intro k hk hl
      obtain ⟨c, hc⟩ := hs.called k hk
      exact (call_of_auth hlinearized hauth hc).resolve_right hl
    by_cases hreturns : ∃ j, l = .returns j
    · obtain ⟨j, rfl⟩ := hreturns
      cases NotifiedAuth.step_cases hauth with
      | returns _ server _ hserver =>
        obtain ⟨op, response, hj, rfl⟩ := AuthServer.returns_cases hserver
        have hanswered : s.answered (.returns j) =
            s.routing.map fun r => if r = .called j then .returned response else r := by
          simp only [answered, hj]
        refine ⟨by rw [hanswered, List.length_map]; exact hs.length, fun k hk => ?_⟩
        rw [hanswered] at hk
        obtain ⟨r, hr, heq⟩ := List.mem_map.1 hk
        split_ifs at heq with hrj
        subst heq
        exact hcalled k hr (by rintro ⟨⟩; exact hrj rfl)
    · have hanswered : s.answered l = s.routing := by
        cases l with
        | returns j => exact absurd ⟨j, rfl⟩ hreturns
        | _ => rfl
      refine ⟨by rw [hanswered]; exact hs.length, fun k hk => ?_⟩
      rw [hanswered] at hk
      exact hcalled k hk fun heq => hreturns ⟨k, heq⟩
  | log l log _ _ => exact ⟨hs.length, hs.called⟩

theorem routed_of_reachable (hsql : sql.Escapes)
    (h : (lts (Q := Q) htmlRoot sql poolSize idle users₀ old).Reachable s) : Routed s := by
  refine LTS.ReachableIf.invariant (I := fun s : WholeServer Q => Routed s) h ⟨rfl, nofun⟩ ?_
  intro s l s' hreach hs _ hstep
  obtain ⟨m, hlinearized⟩ := AuthServer.exists_linearized hsql
    (NotifiedAuth.reachable_server (reachable_auth hreach))
  exact hs.step hlinearized hstep

end Run

end WholeServer

end MiniServer
