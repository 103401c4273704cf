import MiniServer.Server.Activity
import MiniServer.Server.Closing
import MiniServer.Server.Listening

/-!
# The access log of the server

A response is queued under the lock of its connection and logged behind the re-arm, when the client
may already have it, or be gone.  `Audited` follows both: every queued response is logged once, by
the task that has queued it, with the address that `accept` returned for the connection
(`logged_once`).
-/

namespace MiniServer

theorem Connection.consumeWriteData_peerIp (conn : Connection) (n : ℕ) :
    (conn.consumeWriteData n).peerIp = conn.peerIp := by
  unfold consumeWriteData
  dsimp only
  split_ifs <;> rfl

theorem Connection.extractOneRequest_peerIp {conn conn' : Connection} {raw : Bytes}
    (h : conn.extractOneRequest = some (raw, conn')) : conn'.peerIp = conn.peerIp := by
  obtain ⟨p, -, heq⟩ := Option.map_eq_some_iff.1 h
  cases heq
  rfl

theorem Answer.queue_peerIp (answer : Answer) (conn : Connection) :
    (answer.queue conn).peerIp = conn.peerIp := by
  unfold queue
  split <;> rfl

namespace Pc

variable {C : Type}

/-- The response that is queued and not logged. -/
def record? : Pc C → Option (C × Answer)
  | .finish c _ (some record) => some (c, record)
  | .rearm c _ (some record) => some (c, record)
  | .access c record => some (c, record)
  | _ => none

variable {reply : Bytes → Answer}

theorem conn?_of_record {pc : Pc C} {c : C} {record : Answer} (h : pc.record? = some (c, record)) :
    pc.conn? = some c := by
  unfold record? at h
  split at h <;> cases h <;> rfl

/-- No section changes the address of the client. -/
theorem peerIp_of_locked {pc : Pc C} {c : C} {body : Connection → Section C}
    (h : pc.code reply = .locked c body) (conn : Connection) :
    (body conn).conn.peerIp = conn.peerIp := by
  cases pc <;> cases h
  · dsimp only
    split_ifs <;> rfl
  · unfold gatherBody
    split_ifs <;> rfl
  · exact Connection.consumeWriteData_peerIp conn _
  · unfold clearBody
    dsimp only
    split_ifs <;> rfl
  · unfold extractBody
    split_ifs
    · rfl
    · split
      · rfl
      · exact Connection.extractOneRequest_peerIp ‹_›
  · unfold respondBody
    split_ifs
    · rfl
    · exact Answer.queue_peerIp _ _
  · dsimp only
    split_ifs <;> rfl
  · rfl

end Pc

/-- What is recorded of the responses. -/
structure Audit where
  /-- The address that `accept` has returned for a connection. -/
  peers : ConnId → Bytes := fun _ => []
  /-- The responses in the order in which they were queued. -/
  queued : List (ConnId × Answer) := []
  /-- The connection, address and response of each call of `access`. -/
  logged : List (ConnId × Bytes × Answer) := []

namespace HttpServer

variable {Q : Type}

/-- The responses that are queued and not logged. -/
def unlogged (s : HttpServer Q) : List (ConnId × Answer) :=
  (s.queue ++ s.tasks).filterMap fun t => t.pc.record?

/-- The audit after a step. -/
def audit (reply : Bytes → Answer) (m : Audit) (s : HttpServer Q) : Label → Audit
  | .main (.accepted _ peerIp) => { m with peers := Function.update m.peers s.next peerIp }
  | .task i _ =>
    match (s.tasks[i]?).map Task.pc with
    | some (.respond c raw) =>
      if (s.conns c).closed then m else { m with queued := m.queued ++ [(c, reply raw)] }
    | some (.access c record) =>
      { m with logged := m.logged ++ [(c, (s.conns c).peerIp, record)] }
    | _ => m
  | _ => m

/-- The invariant of the server and its audit. -/
structure Audited (s : HttpServer Q) (m : Audit) : Prop where
  made : ∀ fd c, s.connections.lookup fd = some c → c < s.next
  held : ∀ t ∈ s.queue ++ s.tasks, ∀ c ∈ t.pc.conn?, c < s.next
  known : ∀ c < s.next, (s.conns c).peerIp = m.peers c
  register : ∀ fd peerIp rest, s.main = .register fd peerIp rest → m.peers s.next = peerIp
  balance : m.queued.Perm (m.logged.map (fun p => (p.1, p.2.2)) ++ s.unlogged)
  address : ∀ p ∈ m.logged, p.1 < s.next ∧ p.2.1 = m.peers p.1

/-- What a step of a task does to the audit. -/
inductive AuditCase (s : HttpServer Q) (m m' : Audit) :
    Option (ConnId × Answer) → Option (ConnId × Answer) → Prop
  | same (record : Option (ConnId × Answer)) : m' = m → AuditCase s m m' record record
  | queued (c : ConnId) (answer : Answer) :
      m' = { m with queued := m.queued ++ [(c, answer)] } →
      AuditCase s m m' none (some (c, answer))
  | logged (c : ConnId) (answer : Answer) :
      m' = { m with logged := m.logged ++ [(c, (s.conns c).peerIp, answer)] } →
      AuditCase s m m' (some (c, answer)) none

theorem AuditCase.peers {s : HttpServer Q} {m m' : Audit} {before after : Option (ConnId × Answer)}
    (h : AuditCase s m m' before after) : m'.peers = m.peers := by
  cases h with
  | same record heq | queued c answer heq | logged c answer heq => rw [heq]

/-- A new record shows the address of the connection. -/
theorem AuditCase.address {s : HttpServer Q} {m m' : Audit}
    {before after : Option (ConnId × Answer)} (h : AuditCase s m m' before after)
    {p : ConnId × Bytes × Answer} (hp : p ∈ m'.logged) :
    p ∈ m.logged ∨ ∃ answer, before = some (p.1, answer) ∧ p.2.1 = (s.conns p.1).peerIp := by
  cases h with
  | same record heq => exact .inl (heq ▸ hp)
  | queued c answer heq =>
    rw [heq] at hp
    exact .inl hp
  | logged c answer heq =>
    rw [heq, List.mem_append] at hp
    refine hp.imp_right fun hnew => ?_
    obtain rfl := List.mem_singleton.1 hnew
    exact ⟨answer, rfl, rfl⟩

/-- The response of one thread in front of the others. -/
theorem perm_record (queue l₁ l₂ : List Task) (t : Option Task) :
    ((queue ++ (l₁ ++ t.toList ++ l₂)).filterMap fun t => t.pc.record?).Perm
      ((t.bind fun t => t.pc.record?).toList ++
        (queue ++ (l₁ ++ l₂)).filterMap fun t => t.pc.record?) := by
  refine ((perm_thread queue l₁ l₂ t).filterMap _).trans ?_
  rw [List.filterMap_append]
  cases t with
  | none => exact .refl _
  | some t => cases hpc : t.pc.record? <;> simp [hpc]

/-- A response is queued, logged or held. -/
theorem AuditCase.balance {s : HttpServer Q} {m m' : Audit}
    {before after : Option (ConnId × Answer)} (h : AuditCase s m m' before after)
    {rest unlogged unlogged' : List (ConnId × Answer)}
    (hbefore : unlogged.Perm (before.toList ++ rest))
    (hafter : unlogged'.Perm (after.toList ++ rest))
    (hbalance : m.queued.Perm (m.logged.map (fun p => (p.1, p.2.2)) ++ unlogged)) :
    m'.queued.Perm (m'.logged.map (fun p => (p.1, p.2.2)) ++ unlogged') := by
  have hqueued := hbalance.trans (hbefore.append_left _)
  refine .trans ?_ (hafter.append_left _).symm
  cases h with
  | same record heq =>
    rw [heq]
    exact hqueued
  | queued c answer heq =>
    rw [heq]
    refine (hqueued.append_right [(c, answer)]).trans ?_
    rw [List.append_assoc]
    exact List.perm_append_comm.append_left _
  | logged c answer heq =>
    rw [heq, List.map_append, List.append_assoc]
    exact hqueued

/-- A step of the main thread that accepts nobody and keeps the tasks. -/
theorem Audited.goto {s : HttpServer Q} {m : Audit} (hs : Audited s m) {m' : Main}
    {connections : Finmap fun _ : Fd => ConnId}
    {conns : ConnId → Connection} {now : ℕ} {running : Bool} {timers : TimerHeap Q Fd ℕ}
    {files : Fd → Option File} {received written : ConnId → Bytes} {ended : ConnId → Bool}
    (hconnections : ∀ fd c, connections.lookup fd = some c → s.connections.lookup fd = some c)
    (hconns : ∀ c, (conns c).peerIp = (s.conns c).peerIp)
    (hregister : ∀ fd peerIp rest, m' ≠ .register fd peerIp rest) :
    Audited
      { s with now, running, timers, files, connections, conns, received, written, ended,
               main := m' } m where
  made fd c hc := hs.made fd c (hconnections fd c hc)
  held := hs.held
  known c hc := (hconns c).trans (hs.known c hc)
  register fd peerIp rest hm := absurd hm (hregister fd peerIp rest)
  balance := hs.balance
  address := hs.address

section Step

variable [PriorityQueue Q (TimerHeap.Node Fd ℕ) TimerHeap.later]
variable {reply : Bytes → Answer} {idle : ℕ} {s s' : HttpServer Q} {m : Audit}

theorem perform_peerIp {fd : Fd} {pc : Pc ConnId} {r : Sys} {pc' : Option (Pc ConnId)}
    (h : s.perform idle fd (pc.code reply) r = some (s', pc')) (c : ConnId) :
    (s'.conns c).peerIp = (s.conns c).peerIp := by
  rcases perform_conns_cases h c with heq | ⟨body, hcode, heq⟩
  · rw [heq]
  · rw [heq]
    exact Pc.peerIp_of_locked hcode _

/-- A handler holds the connection that it has looked up. -/
theorem perform_conn? {fd : Fd} {pc q : Pc ConnId} {r : Sys}
    (h : s.perform idle fd (pc.code reply) r = some (s', some q)) {c : ConnId}
    (hc : q.conn? = some c) : pc.conn? = some c ∨ s.connections.lookup fd = some c := by
  cases handler_cases h <;> cases hc
  all_goals first | exact .inl rfl | exact .inr ‹_›

theorem audit_cases {i : ℕ} {t : Task} {r : Sys} {pc' : Option (Pc ConnId)} {s₁ : HttpServer Q}
    (hi : s.tasks[i]? = some t) (h : s.perform idle t.fd (t.pc.code reply) r = some (s₁, pc')) :
    AuditCase s m (audit reply m s (.task i r)) t.pc.record? (pc'.bind Pc.record?) := by
  obtain ⟨fd, owner, pc⟩ := t
  simp only [audit, hi, Option.map_some]
  cases handler_cases h with
  | respondClosed hclosed =>
    simp only [hclosed, if_true]
    exact .same none rfl
  | respond hopen =>
    simp only [hopen, Bool.false_eq_true, if_false]
    exact .queued _ _ rfl
  | access => exact .logged _ _ rfl
  | @finish c interest record => cases record <;> exact .same _ rfl
  | _ => exact .same _ rfl

theorem Audited.task_step (hs : Audited s m) {i : ℕ} {r : Sys}
    (h : s.step reply idle (.task i r) = some s') : Audited s' (audit reply m s (.task i r)) := by
  obtain ⟨l₁, t, l₂, s₁, pc, htasks, hi, hperform, rfl⟩ := taskStep_cases h
  have heq := perform_eq hperform
  have hnext : s₁.next = s.next := by rw [heq]
  have hmain : s₁.main = s.main := by rw [heq]
  have hqueue : s₁.queue = s.queue := by rw [heq]
  have hcase := audit_cases (m := m) hi hperform
  have ht : t ∈ s.queue ++ s.tasks := List.mem_append_right _ (List.mem_of_getElem? hi)
  have hpeers := hcase.peers
  constructor
  case made =>
    intro fd c hc
    rw [show HttpServer.next _ = s₁.next from rfl, hnext]
    exact hs.made fd c ((perform_effect hperform).table fd c hc)
  case held =>
    intro t' ht' c hc
    rw [show HttpServer.next _ = s₁.next from rfl, hnext]
    rcases mem_taskStep (hqueue ▸ ht') with ⟨q, rfl, rfl⟩ | hother
    · rcases perform_conn? hperform hc with hold | hlookup
      · exact hs.held t ht c hold
      · exact hs.made t.fd c hlookup
    · refine hs.held t' ?_ c hc
      rw [(perm_thread_cons s.queue htasks).mem_iff]
      exact List.mem_cons_of_mem _ hother
  case known =>
    intro c hc
    rw [hpeers]
    exact (perform_peerIp hperform c).trans (hs.known c (hnext ▸ hc))
  case register =>
    intro fd peerIp rest hm
    rw [hpeers, show HttpServer.next _ = s₁.next from rfl, hnext]
    exact hs.register fd peerIp rest (hmain ▸ hm)
  case balance =>
    have hbefore := perm_record s.queue l₁ l₂ (some t)
    have hafter := perm_record s.queue l₁ l₂ (pc.map fun pc => { t with pc })
    rw [Option.bind_map] at hafter
    have hunlogged : s.unlogged.Perm (t.pc.record?.toList ++
        (s.queue ++ (l₁ ++ l₂)).filterMap fun t => t.pc.record?) := by
      rw [unlogged, htasks]
      simpa using hbefore
    refine hcase.balance hunlogged ?_ hs.balance
    rw [unlogged, hqueue]
    exact hafter
  case address =>
    intro p hp
    rw [hpeers, show HttpServer.next _ = s₁.next from rfl, hnext]
    rcases hcase.address hp with hold | ⟨answer, hrecord, hip⟩
    · exact hs.address p hold
    · have hmade := hs.held t ht p.1 (Pc.conn?_of_record hrecord)
      exact ⟨hmade, hip.trans (hs.known p.1 hmade)⟩

theorem Audited.accepted (hs : Audited s m) {fd : Fd} {peerIp : Bytes}
    (h : s.mainStep reply idle (.accepted fd peerIp) = some s') :
    Audited s' (audit reply m s (.main (.accepted fd peerIp))) := by
  obtain ⟨rest, hm, hm'⟩ := Listening.accept_of_accepted h
  have hother : ∀ {c}, c < s.next → Function.update m.peers s.next peerIp c = m.peers c :=
    fun hc => Function.update_of_ne (Nat.ne_of_lt hc) _ _
  simp only [mainStep, hm] at h
  split_ifs at h
  cases h
  refine ⟨hs.made, hs.held, fun c hc => (hs.known c hc).trans (hother hc).symm, ?_, hs.balance,
    fun p hp => ?_⟩
  · rintro _ _ _ ⟨⟩
    exact Function.update_self _ _ _
  · obtain ⟨hmade, hip⟩ := hs.address p hp
    exact ⟨hmade, hip.trans (hother hmade).symm⟩

theorem Audited.registered (hs : Audited s m) {fd : Fd} {peerIp : Bytes} {rest : List Event}
    (hm : s.main = .register fd peerIp rest) :
    Audited { s.register idle fd peerIp with main := .add fd rest } m where
  made fd' c hc := by
    have hc : (s.connections.insert fd s.next).lookup fd' = some c := hc
    show c < s.next + 1
    by_cases hfd : fd' = fd
    · subst hfd
      rw [Finmap.lookup_insert] at hc
      cases hc
      exact Nat.lt_succ_self _
    · rw [Finmap.lookup_insert_of_ne _ hfd] at hc
      exact Nat.lt_succ_of_lt (hs.made fd' c hc)
  held t ht c hc := Nat.lt_succ_of_lt (hs.held t ht c hc)
  known c hc := by
    show (Function.update s.conns s.next { fd, peerIp } c).peerIp = m.peers c
    by_cases hnew : c = s.next
    · subst hnew
      rw [Function.update_self]
      exact (hs.register fd peerIp rest hm).symm
    · rw [Function.update_of_ne hnew]
      exact hs.known c (Nat.lt_of_le_of_ne (Nat.le_of_lt_succ hc) hnew)
  register _ _ _ hm' := by cases hm'
  balance := hs.balance
  address p hp := by
    obtain ⟨hmade, hip⟩ := hs.address p hp
    exact ⟨Nat.lt_succ_of_lt hmade, hip⟩

theorem Audited.main_step (hs : Audited s m) {r : MainSys} (h : s.mainStep reply idle r = some s')
    (hr : ∀ fd peerIp, r ≠ .accepted fd peerIp) : Audited s' m := by
  have hsame : ∀ fd c, s.connections.lookup fd = some c → s.connections.lookup fd = some c :=
    fun _ _ hc => hc
  cases mainStep_cases h with
  | loop hm =>
    refine hs.goto hsame (fun _ => rfl) fun _ _ _ => ?_
    split_ifs <;> nofun
  | wait hm hev _ =>
    obtain ⟨files, rfl⟩ := deliverAll_eq hev
    exact hs.goto hsame (fun _ => rfl) nofun
  | accepted _ heq _ => exact absurd heq (hr _ _)
  | register hm => exact hs.registered hm
  | @begin fd c i rest hm _ _ =>
    refine hs.goto hsame (fun c' => ?_) nofun
    show (Function.update s.conns c _ c').peerIp = _
    by_cases hc : c' = c
    · rw [hc, Function.update_self]
      rfl
    · rw [Function.update_of_ne hc]
  | @enqueue fd c i rest hm =>
    -- the new task has no response yet
    have hnew : (beginPc i : Pc ConnId).conn? = none ∧ (beginPc i : Pc ConnId).record? = none := by
      cases i <;> exact ⟨rfl, rfl⟩
    have hperm := @List.perm_middle _ ⟨fd, c, beginPc i⟩ s.queue s.tasks
    refine ⟨hs.made, fun t ht c' hc' => ?_, hs.known, nofun, ?_, hs.address⟩
    · rw [List.append_assoc, List.singleton_append, hperm.mem_iff, List.mem_cons] at ht
      rcases ht with rfl | ht
      · rw [hnew.1] at hc'
        cases hc'
      · exact hs.held t ht c' hc'
    · refine hs.balance.trans (.append_left _ ?_)
      simp [unlogged, hnew.2]
  | @close fd pc caller s₁ pc' hm hperform =>
    have htable := (perform_effect hperform).table
    have hpeerIp := perform_peerIp hperform
    rw [perform_eq hperform]
    refine hs.goto htable hpeerIp ?_
    cases pc' <;> cases caller <;> nofun
  | shutdown hm _ =>
    refine hs.goto (fun fd c hc => ?_) (fun c => ?_) nofun
    · change (∅ : Finmap fun _ : Fd => ConnId).lookup fd = some c at hc
      rw [Finmap.lookup_empty] at hc
      cases hc
    · unfold closeAll
      dsimp only
      split_ifs <;> rfl
  | _ => exact hs.goto hsame (fun _ => rfl) nofun

theorem Audited.step (hs : Audited s m) {l : Label} (h : s.step reply idle l = some s') :
    Audited s' (audit reply m s l) := by
  cases l with
  | tick d => cases h; exact ⟨hs.made, hs.held, hs.known, hs.register, hs.balance, hs.address⟩
  | requestStop => cases h; exact ⟨hs.made, hs.held, hs.known, hs.register, hs.balance, hs.address⟩
  | main r =>
    cases r with
    | accepted fd peerIp => exact hs.accepted h
    | _ => exact hs.main_step h nofun
  | start =>
    obtain ⟨t, queue, hqueue, rfl⟩ := start_cases h
    have hperm := perm_start hqueue s.tasks
    refine ⟨hs.made, fun t' ht' => hs.held t' (hperm.mem_iff.1 ht'), hs.known, hs.register, ?_,
      hs.address⟩
    exact hs.balance.trans ((hperm.filterMap _).symm.append_left _)
  | task i r => exact hs.task_step h

theorem Audited.init : Audited (lts (Q := Q) reply idle).init {} where
  made _ _ hc := by cases hc
  held _ ht := by cases ht
  known _ hc := absurd hc (Nat.not_lt_zero _)
  register _ _ _ hm := by cases hm
  balance := .refl _
  address _ hp := by cases hp

/-- **Every response is logged once.**  In every run, the responses that were queued are those that
were logged and those that a task still has to log; each was logged with the address that `accept`
has returned for its connection, whether the connection was closed meanwhile or not; and when the
server has stopped, all are logged. -/
theorem logged_once (h : ((lts reply idle).record {} (audit reply)).Reachable (s, m)) :
    m.queued.Perm (m.logged.map (fun p => (p.1, p.2.2)) ++ s.unlogged) ∧
      (∀ p ∈ m.logged, p.2.1 = m.peers p.1) ∧
      (s.main = .stopped → m.queued.Perm (m.logged.map fun p => (p.1, p.2.2))) := by
  have hs : Audited s m :=
    LTS.record_invariant (I := Audited) h .init fun _ _ _ _ _ hs hstep => hs.step hstep
  refine ⟨hs.balance, fun p hp => (hs.address p hp).2, fun hstopped => ?_⟩
  have hclosable : Closable s := LTS.ReachableIf.invariant (I := Closable) (LTS.reachable_fst h)
    .init fun _ _ _ _ hs _ hstep => hs.step hstep
  obtain ⟨hqueue, htasks⟩ := hclosable.joined (.inr hstopped)
  have hbalance := hs.balance
  rwa [unlogged, hqueue, htasks, List.append_nil, List.filterMap_nil, List.append_nil] at hbalance

/-- The response is queued, and the server is stopped. -/
def loggedRun : List Label :=
  answeredRun ++ [.requestStop, .main .done, .main .done, .main .done, .main .done, .main .done,
    .main .done, .main .done]

theorem logged_once_stop :
    ∃ s m, (sample.record {} (audit Site.empty.reply)).Reachable (s, m) ∧ s.main = .stopped ∧
      m.queued.length = 1 ∧ m.queued.Perm (m.logged.map fun p => (p.1, p.2.2)) := by
  obtain ⟨⟨s, m⟩, hrun, hstopped, hqueued⟩ :
      ∃ p ∈ (sample.record {} (audit Site.empty.reply)).run
          (sample.record {} (audit Site.empty.reply)).init loggedRun,
        p.1.main = .stopped ∧ p.2.queued.length = 1 := by decide +kernel
  have h := LTS.reachable_of_run hrun
  exact ⟨s, m, h, hstopped, hqueued, (logged_once h).2.2 hstopped⟩

end Step

end HttpServer

end MiniServer
