import MiniServer.Server.Answers
import MiniServer.Server.Closing

/-!
# The server on its sockets

`HttpServer` leaves every result of a system call open.  `Network` has the sockets: what each client
has sent, how much it takes, and the ready list of `epoll`, which a descriptor joins when something
happens on its socket while it is armed, or when `epoll_ctl` arms it and something has happened
already.

With `EPOLLET | EPOLLONESHOT` an event is delivered once and disarms the descriptor.  No event is
lost (`Notified`), so when the server rests, everything that a client has sent is read and answered,
or the client takes nothing more (`rest_served`).
-/

namespace MiniServer

/-- The client of a connection, with the buffers of the kernel on its side. -/
structure Peer where
  /-- What it has sent. -/
  sent : Bytes := []
  /-- It has ended its stream. -/
  shut : Bool := false
  /-- It has reset the connection. -/
  reset : Bool := false
  /-- How many bytes there is room for, from the first one on. -/
  window : ℕ := 0

/-- The server on its sockets. -/
structure Network (Q : Type) where
  server : HttpServer Q
  peers : ConnId → Peer := fun _ => {}
  /-- The ready list of `epoll`. -/
  ready : Fd → Bool := fun _ => false

/-- Steps of the clients, of `epoll` and of the server. -/
inductive NetLabel where
  | send (c : ConnId) (bytes : Bytes)
  | shut (c : ConnId)
  | reset (c : ConnId)
  /-- The client reads, so that there is room for more. -/
  | take (c : ConnId) (count : ℕ)
  /-- `epoll_wait` finds nothing on a descriptor of the list, and takes it off. -/
  | skip (fd : Fd)
  | server (l : Label)
  deriving DecidableEq

namespace Network

variable {Q : Type}

/-- What a client has sent and the server has not read. -/
def inbox (n : Network Q) (c : ConnId) : Bytes :=
  (n.peers c).sent.drop (n.server.received c).length

/-- How many bytes `writev` can take. -/
def room (n : Network Q) (c : ConnId) : ℕ := (n.peers c).window - (n.server.written c).length

/-- What a poll of the socket finds.  `eventLoop` looks at `EPOLLHUP | EPOLLERR` first. -/
def finds (n : Network Q) (c : ConnId) : Kind → Bool
  | .hangup => (n.peers c).reset
  | .input => !(n.peers c).reset && (n.inbox c ≠ [] || (n.peers c).shut)
  | .output => !(n.peers c).reset && 0 < n.room c

/-- A poll of the socket finds something to deliver to a descriptor that is armed so. -/
def polls (n : Network Q) (c : ConnId) (interest : Interest) : Bool :=
  n.finds c .hangup || n.finds c interest.kind

/-- `epoll_wait` can deliver an event on this descriptor. -/
def signals (n : Network Q) (fd : Fd) : Bool :=
  n.ready fd && match n.server.owner fd, n.server.registration fd with
    | some c, some (some interest) => n.polls c interest
    | _, _ => false

/-- The results that `read` can have. -/
def reads (n : Network Q) (fd : Fd) (r : ReadResult) : Bool :=
  match n.server.owner fd with
  | none => r = .error
  | some c =>
    match r with
    | .data bytes => bytes.isPrefixOf (n.inbox c)
    | .eof => n.inbox c = [] && (n.peers c).shut
    | .again => n.inbox c = [] && !(n.peers c).shut && !(n.peers c).reset
    | .error => (n.peers c).reset

/-- The results that `writev` can have. -/
def writes (n : Network Q) (fd : Fd) (r : WriteResult) : Bool :=
  match n.server.owner fd with
  | none => r = .error
  | some c =>
    match r with
    | .wrote count => count ≤ n.room c
    | .again => n.room c = 0 && !(n.peers c).reset
    | .error => (n.peers c).reset

/-- `epoll_wait` can deliver this event. -/
def delivers (n : Network Q) : Event → Bool
  | .listen => true
  | .client fd kind => n.ready fd && (n.server.owner fd).any fun c => n.finds c kind

/-- The sockets allow the result of a step. -/
def allows (n : Network Q) : Label → Bool
  | .main (.events evs) => evs.all n.delivers
  | .task i (.read r) => (n.server.tasks[i]?).all fun t => n.reads t.fd r
  | .task i (.write r) => (n.server.tasks[i]?).all fun t => n.writes t.fd r
  | _ => true

/-- The ready list after a step of the server.  `epoll_ctl` polls the socket when it arms a
descriptor, and a descriptor that is not armed is not on the list. -/
def listed (n : Network Q) (server : HttpServer Q) (fd : Fd) : Bool :=
  match server.registration fd with
  | some (some interest) =>
    n.ready fd || (n.server.registration fd ≠ some (some interest) &&
      (server.owner fd).any fun c => { n with server }.polls c interest)
  | _ => false

/-- Something happens on the socket of a connection: its descriptor joins the list if it is armed
for that. -/
def notify (n : Network Q) (c : ConnId) (peer : Peer) (raises : Interest → Bool) : Network Q :=
  { n with
    peers := Function.update n.peers c peer
    ready := fun fd => n.ready fd || (n.server.owner fd = some c &&
      (n.server.registration fd).any fun armed => armed.any raises) }

section Step

variable [PriorityQueue Q (TimerHeap.Node Fd ℕ) TimerHeap.later]
variable (reply : Bytes → Answer) (idle : ℕ)

/-- A step of the server, its clients or `epoll`. -/
def step (n : Network Q) : NetLabel → Option (Network Q)
  | .send c bytes =>
    let peer := n.peers c
    if peer.shut || peer.reset then none
    else some (n.notify c { peer with sent := peer.sent ++ bytes } (· = .input))
  | .shut c =>
    let peer := n.peers c
    if peer.reset then none else some (n.notify c { peer with shut := true } (· = .input))
  | .reset c => some (n.notify c { n.peers c with reset := true } fun _ => true)
  | .take c count =>
    let peer := n.peers c
    some (n.notify c { peer with window := peer.window + count } (· = .output))
  | .skip fd =>
    if n.signals fd then none else some { n with ready := Function.update n.ready fd false }
  | .server l =>
    if n.allows l then
      (n.server.step reply idle l).map fun server => { n with server, ready := n.listed server }
    else none

/-- The server from its start on. -/
def lts : LTS (Network Q) NetLabel where
  init := { server := (HttpServer.lts reply idle).init }
  step n l := n.step reply idle l

end Step

/-- Nothing disturbs the session on `fd`: no hang-up, socket error, timeout or stop; and `accept`
returns no number that a task still works on. -/
def Calm (fd : Fd) (n : Network Q) : NetLabel → Prop
  | .server l => n.server.Undisturbed (fun _ => True) fd l
  | _ => True

instance (fd : Fd) (n : Network Q) : (l : NetLabel) → Decidable (Calm fd n l)
  | .server l => inferInstanceAs (Decidable (n.server.Undisturbed (fun _ => True) fd l))
  | .send _ _ | .shut _ | .reset _ | .take _ _ | .skip _ => inferInstanceAs (Decidable True)

/-- The server waits for events and has no task, and none can be delivered on `fd`. -/
structure Rests (n : Network Q) (fd : Fd) : Prop where
  main : n.server.main = .wait
  queue : n.server.queue = []
  tasks : n.server.tasks = []
  silent : n.signals fd = false

end Network

/-! ### What the server reads and writes -/

namespace HttpServer

variable {Q : Type} [PriorityQueue Q (TimerHeap.Node Fd ℕ) TimerHeap.later]
variable {reply : Bytes → Answer} {idle : ℕ} {s s' : HttpServer Q}

/-- An action reads what `read` has returned. -/
theorem perform_received {fd : Fd} {a : Action ConnId} {r : Sys} {pc : Option (Pc ConnId)}
    (h : s.perform idle fd a r = some (s', pc)) (c : ConnId) :
    s'.received c = s.received c ∨ ∃ bytes, r = .read (.data bytes) ∧ s.owner fd = some c ∧
      s'.received c = s.received c ++ bytes := by
  cases perform_cases h with
  | @readData _ bytes _ =>
    by_cases howner : s.owner fd = some c
    · exact .inr ⟨bytes, rfl, howner, updateRecord_self howner s.received (· ++ bytes)⟩
    · exact .inl (updateRecord_ne howner s.received (· ++ bytes))
  | _ => exact .inl rfl

/-- An action writes as much as `writev` has returned. -/
theorem perform_written {fd : Fd} {a : Action ConnId} {r : Sys} {pc : Option (Pc ConnId)}
    (h : s.perform idle fd a r = some (s', pc)) (c : ConnId) :
    s'.written c = s.written c ∨ ∃ count bytes, r = .write (.wrote count) ∧
      s.owner fd = some c ∧ bytes.length = count ∧ s'.written c = s.written c ++ bytes := by
  cases perform_cases h with
  | @wrote iov _ count _ hle =>
    by_cases howner : s.owner fd = some c
    · exact .inr ⟨count, iov.flatten.take count, rfl, howner, List.length_take_of_le hle,
        updateRecord_self howner s.written (· ++ iov.flatten.take count)⟩
    · exact .inl (updateRecord_ne howner s.written (· ++ iov.flatten.take count))
  | _ => exact .inl rfl

/-- The main thread reads nothing and writes nothing. -/
theorem main_records {r : MainSys} (h : s.mainStep reply idle r = some s') (c : ConnId) :
    s'.received c = s.received c ∧ s'.written c = s.written c := by
  cases mainStep_cases h with
  | wait _ hev _ =>
    obtain ⟨files, rfl⟩ := deliverAll_eq hev
    exact ⟨rfl, rfl⟩
  | close _ hperform =>
    constructor
    · rcases perform_received hperform c with heq | ⟨bytes, hr, -⟩
      · exact heq
      · cases hr
    · rcases perform_written hperform c with heq | ⟨count, bytes, hr, -⟩
      · exact heq
      · cases hr
  | _ => exact ⟨rfl, rfl⟩

theorem step_received {l : Label} (h : s.step reply idle l = some s') (c : ConnId) :
    s'.received c = s.received c ∨ ∃ i t bytes, l = .task i (.read (.data bytes)) ∧
      s.tasks[i]? = some t ∧ s.owner t.fd = some c ∧ s'.received c = s.received c ++ bytes := by
  cases l with
  | tick d => cases h; exact .inl rfl
  | requestStop => cases h; exact .inl rfl
  | main r => exact .inl (main_records h c).1
  | start =>
    obtain ⟨t, queue, -, rfl⟩ := start_cases h
    exact .inl rfl
  | task i r =>
    obtain ⟨l₁, t, l₂, s₁, pc, -, hi, hperform, rfl⟩ := taskStep_cases h
    refine (perform_received hperform c).imp_right ?_
    rintro ⟨bytes, rfl, howner, heq⟩
    exact ⟨i, t, bytes, rfl, hi, howner, heq⟩

theorem step_written {l : Label} (h : s.step reply idle l = some s') (c : ConnId) :
    s'.written c = s.written c ∨ ∃ i t count bytes, l = .task i (.write (.wrote count)) ∧
      s.tasks[i]? = some t ∧ s.owner t.fd = some c ∧ bytes.length = count ∧
      s'.written c = s.written c ++ bytes := by
  cases l with
  | tick d => cases h; exact .inl rfl
  | requestStop => cases h; exact .inl rfl
  | main r => exact .inl (main_records h c).2
  | start =>
    obtain ⟨t, queue, -, rfl⟩ := start_cases h
    exact .inl rfl
  | task i r =>
    obtain ⟨l₁, t, l₂, s₁, pc, -, hi, hperform, rfl⟩ := taskStep_cases h
    refine (perform_written hperform c).imp_right ?_
    rintro ⟨count, bytes, rfl, howner, hlength, heq⟩
    exact ⟨i, t, count, bytes, rfl, hi, howner, hlength, heq⟩

/-- A descriptor that stays registered keeps its connection. -/
theorem owner_of_registration {l : Label} (h : s.step reply idle l = some s') {fd : Fd}
    {c : ConnId} (hreg : (s.registration fd).isSome = true) (hc : s'.owner fd = some c) :
    s.owner fd = some c := by
  cases step_owner_cases h with
  | opened fd' _ hnone howner _ _ =>
    rw [howner] at hc
    by_cases hfd : fd = fd'
    · -- the number was free
      subst hfd
      rw [owner, Option.map_eq_none_iff] at hnone
      rw [registration, hnone] at hreg
      cases hreg
    · rwa [Function.update_of_ne hfd] at hc
  | closed howner _ =>
    rw [howner fd] at hc
    split_ifs at hc with hclosed
    exact hc

end HttpServer

namespace Network

variable {Q : Type}

/-! ### No event is lost -/

/-- What holds of the sockets.  An armed descriptor with something to deliver is on the list. -/
structure Notified (n : Network Q) : Prop where
  received : ∀ c, n.server.received c <+: (n.peers c).sent
  written : ∀ c, (n.server.written c).length ≤ (n.peers c).window
  listed : ∀ fd c interest, n.server.registration fd = some (some interest) →
    n.server.owner fd = some c → n.polls c interest = true → n.ready fd = true

/-- The server takes what a poll has found, and adds nothing. -/
theorem finds_mono {n n' : Network Q} {c : ConnId} (hpeer : n'.peers c = n.peers c)
    (hreceived : n.server.received c <+: n'.server.received c)
    (hwritten : n.server.written c <+: n'.server.written c) {kind : Kind}
    (h : n'.finds c kind = true) : n.finds c kind = true := by
  cases kind with
  | hangup => rwa [finds, hpeer] at h
  | input =>
    have hinbox : n'.inbox c ≠ [] → n.inbox c ≠ [] := by
      have hle := hreceived.length_le
      simp only [inbox, hpeer, ne_eq, List.drop_eq_nil_iff]
      omega
    simp only [finds, hpeer, Bool.and_eq_true, Bool.or_eq_true, decide_eq_true_eq] at h ⊢
    exact ⟨h.1, h.2.imp_left hinbox⟩
  | output =>
    have hroom : n'.room c ≤ n.room c := by
      have hle := hwritten.length_le
      simp only [room, hpeer]
      omega
    simp only [finds, hpeer, Bool.and_eq_true, decide_eq_true_eq] at h ⊢
    exact ⟨h.1, Nat.lt_of_lt_of_le h.2 hroom⟩

theorem polls_mono {n n' : Network Q} {c : ConnId} (hpeer : n'.peers c = n.peers c)
    (hreceived : n.server.received c <+: n'.server.received c)
    (hwritten : n.server.written c <+: n'.server.written c) {interest : Interest}
    (h : n'.polls c interest = true) : n.polls c interest = true := by
  rw [polls, Bool.or_eq_true] at h ⊢
  exact h.imp (finds_mono hpeer hreceived hwritten) (finds_mono hpeer hreceived hwritten)

section Notify

variable {n : Network Q} {c : ConnId} {peer : Peer} {raises : Interest → Bool}

theorem notify_self : (n.notify c peer raises).peers c = peer := Function.update_self _ _ _

theorem polls_notify_input (hreset : peer.reset = (n.peers c).reset)
    (hsent : peer.sent = (n.peers c).sent) (hshut : peer.shut = (n.peers c).shut) :
    (n.notify c peer raises).polls c .input = n.polls c .input := by
  have hinbox : (n.notify c peer raises).inbox c = n.inbox c := by
    rw [inbox, notify_self, hsent]
    rfl
  simp only [polls, finds, Interest.kind, notify_self, hreset, hinbox, hshut]

theorem polls_notify_output (hreset : peer.reset = (n.peers c).reset)
    (hwindow : peer.window = (n.peers c).window) :
    (n.notify c peer raises).polls c .output = n.polls c .output := by
  have hroom : (n.notify c peer raises).room c = n.room c := by
    rw [room, notify_self, hwindow]
    rfl
  simp only [polls, finds, Interest.kind, notify_self, hreset, hroom]

end Notify

/-- Something happens on a socket. -/
theorem Notified.notify {n : Network Q} (h : Notified n) {c : ConnId} {peer : Peer}
    {raises : Interest → Bool} (hsent : (n.peers c).sent <+: peer.sent)
    (hwindow : (n.peers c).window ≤ peer.window)
    (hraises : ∀ interest, (n.notify c peer raises).polls c interest = true →
      n.polls c interest = true ∨ raises interest = true) : Notified (n.notify c peer raises) := by
  have hpeer : (n.notify c peer raises).peers c = peer := notify_self
  have hother : ∀ {c'}, c' ≠ c → (n.notify c peer raises).peers c' = n.peers c' :=
    fun hne => Function.update_of_ne hne _ _
  refine ⟨fun c' => ?_, fun c' => ?_, fun fd c' interest => ?_⟩
  · by_cases hc : c' = c
    · subst hc
      rw [hpeer]
      exact (h.received c').trans hsent
    · rw [hother hc]
      exact h.received c'
  · by_cases hc : c' = c
    · subst hc
      rw [hpeer]
      exact Nat.le_trans (h.written c') hwindow
    · rw [hother hc]
      exact h.written c'
  · intro (hreg : n.server.registration fd = _) (howner : n.server.owner fd = _) hpolls
    simp only [Network.notify, Bool.or_eq_true]
    by_cases hc : c' = c
    · subst hc
      refine (hraises interest hpolls).imp (h.listed fd c' interest hreg howner) fun hraised => ?_
      simp [howner, hreg, hraised]
    · have hold : n.polls c' interest = true :=
        polls_mono (hother hc) (List.prefix_refl _) (List.prefix_refl _) hpolls
      exact .inl (h.listed fd c' interest hreg howner hold)

/-! ### The server at rest -/

/-- Nothing is left on a socket that is armed at rest. -/
theorem Notified.polls_eq_false {n : Network Q} (hn : Notified n) {fd : Fd}
    (hrest : n.Rests fd) {c : ConnId} {interest : Interest} (howner : n.server.owner fd = some c)
    (hreg : n.server.registration fd = some (some interest)) : n.polls c interest = false := by
  by_contra hpolls
  rw [Bool.not_eq_false] at hpolls
  have hready := hn.listed fd c interest hreg howner hpolls
  have hsilent := hrest.silent
  simp [signals, hready, howner, hreg, hpolls] at hsilent

/-- At rest, a connection is armed. -/
theorem exists_armed {n : Network Q} {fd : Fd} {c : ConnId}
    (hs : HttpServer.Single n.server) (hrest : n.Rests fd)
    (hc : n.server.connections.lookup fd = some c) :
    ∃ interest, n.server.registration fd = some (some interest) := by
  cases hs.holder hc (by rw [hrest.main]; nofun) with
  | armed harmed =>
    obtain ⟨interest, harmed⟩ := Option.isSome_iff_exists.1 harmed
    obtain ⟨_, hreg, rfl⟩ := Option.bind_eq_some_iff.1 harmed
    exact ⟨interest, hreg⟩
  | pending kind hev => rw [hrest.main] at hev; cases hev
  | handling hhandling => rw [hrest.main] at hhandling; cases hhandling
  | task t ht _ _ _ => rw [hrest.queue, hrest.tasks] at ht; cases ht

/-- A descriptor that is armed for input while the server rests has nothing to read. -/
theorem Notified.rest_input {n : Network Q} (hn : Notified n) {fd : Fd} {c : ConnId}
    (hrest : n.Rests fd) (howner : n.server.owner fd = some c)
    (hreg : n.server.registration fd = some (some .input)) :
    n.server.received c = (n.peers c).sent ∧ (n.peers c).shut = false := by
  have hpolls := hn.polls_eq_false hrest howner hreg
  simp only [polls, finds, Interest.kind, Bool.or_eq_false_iff, Bool.and_eq_false_iff,
    Bool.not_eq_false', decide_eq_false_iff_not, not_not] at hpolls
  obtain ⟨hreset, hpolls⟩ := hpolls
  obtain ⟨hinbox, hshut⟩ := hpolls.resolve_left (by rw [hreset]; exact Bool.false_ne_true)
  exact ⟨(hn.received c).eq_of_length_le (List.drop_eq_nil_iff.1 hinbox), hshut⟩

/-- A descriptor that is armed for output while the server rests has a full socket. -/
theorem Notified.rest_output {n : Network Q} (hn : Notified n) {fd : Fd} {c : ConnId}
    (hrest : n.Rests fd) (howner : n.server.owner fd = some c)
    (hreg : n.server.registration fd = some (some .output)) :
    (n.server.written c).length = (n.peers c).window := by
  have hpolls := hn.polls_eq_false hrest howner hreg
  simp only [polls, finds, Interest.kind, Bool.or_eq_false_iff, Bool.and_eq_false_iff,
    Bool.not_eq_false', decide_eq_false_iff_not] at hpolls
  obtain ⟨hreset, hpolls⟩ := hpolls
  have hroom := hpolls.resolve_left (by rw [hreset]; exact Bool.false_ne_true)
  have hle := hn.written c
  rw [room] at hroom
  omega

/-! ### Runs -/

section Step

variable [PriorityQueue Q (TimerHeap.Node Fd ℕ) TimerHeap.later]
variable {reply : Bytes → Answer} {idle : ℕ} {n n' : Network Q}

/-- A step of the server. -/
theorem server_cases {l : Label} (h : n.step reply idle (.server l) = some n') :
    n.allows l = true ∧ n.server.step reply idle l = some n'.server ∧
      n' = { n with server := n'.server, ready := n.listed n'.server } := by
  obtain ⟨hallows, h⟩ := Option.ite_none_right_eq_some.1 h
  obtain ⟨server, hstep, rfl⟩ := Option.map_eq_some_iff.1 h
  exact ⟨hallows, hstep, rfl⟩

/-- The clients and `epoll` leave the server as it is. -/
theorem server_or_eq {l : NetLabel} (h : n.step reply idle l = some n') :
    (∃ l', l = .server l') ∨ n'.server = n.server := by
  cases l with
  | server l => exact .inl ⟨l, rfl⟩
  | send c bytes => obtain ⟨-, ⟨⟩⟩ := Option.ite_none_left_eq_some.1 h; exact .inr rfl
  | shut c => obtain ⟨-, ⟨⟩⟩ := Option.ite_none_left_eq_some.1 h; exact .inr rfl
  | reset c => cases h; exact .inr rfl
  | take c count => cases h; exact .inr rfl
  | skip fd => obtain ⟨-, ⟨⟩⟩ := Option.ite_none_left_eq_some.1 h; exact .inr rfl

theorem Notified.server (hn : Notified n) {l : Label}
    (h : n.step reply idle (.server l) = some n') : Notified n' := by
  obtain ⟨hallows, hstep, heq⟩ := server_cases h
  have hpeers : n'.peers = n.peers := by rw [heq]
  have hready : n'.ready = n.listed n'.server := by rw [heq]
  have hreceived := HttpServer.step_received hstep
  have hwritten := HttpServer.step_written hstep
  refine ⟨fun c => ?_, fun c => ?_, fun fd c interest hreg howner hpolls => ?_⟩
  · rw [hpeers]
    rcases hreceived c with hsame | ⟨i, t, bytes, rfl, hi, howner, hread⟩
    · rw [hsame]
      exact hn.received c
    · -- what is read was in the buffer
      simp only [allows, hi, Option.all_some, reads, howner, List.isPrefixOf_iff_prefix,
        inbox] at hallows
      rw [hread]
      obtain ⟨rest, hrest⟩ := hn.received c
      rw [← hrest, List.drop_left] at hallows
      rw [← hrest]
      exact List.prefix_append_right_inj _ |>.2 hallows
  · rw [hpeers]
    rcases hwritten c with hsame | ⟨i, t, count, bytes, rfl, hi, howner, hlength, hwrote⟩
    · rw [hsame]
      exact hn.written c
    · simp only [allows, hi, Option.all_some, writes, howner, room] at hallows
      have hroom := of_decide_eq_true hallows
      have hle := hn.written c
      rw [hwrote, List.length_append]
      omega
  · rw [hready, Network.listed, hreg]
    simp only [Bool.or_eq_true, Bool.and_eq_true, decide_eq_true_eq]
    by_cases hsame : n.server.registration fd = some (some interest)
    · left
      have howner' : n.server.owner fd = some c :=
        HttpServer.owner_of_registration hstep (by rw [hsame]; rfl) howner
      refine hn.listed fd c interest hsame howner' (polls_mono (congrFun hpeers c) ?_ ?_ hpolls)
      · rcases hreceived c with hsame | ⟨_, _, _, -, -, -, hread⟩
        · rw [hsame]
        · rw [hread]
          exact List.prefix_append _ _
      · rcases hwritten c with hsame | ⟨_, _, _, _, -, -, -, -, hwrote⟩
        · rw [hsame]
        · rw [hwrote]
          exact List.prefix_append _ _
    · -- `epoll_ctl` has polled the socket
      right
      refine ⟨hsame, ?_⟩
      rw [howner, Option.any_some]
      have hpeer : ({ n with server := n'.server } : Network Q).peers c = n'.peers c := by
        rw [hpeers]
      exact polls_mono hpeer.symm (List.prefix_refl _) (List.prefix_refl _) hpolls

theorem Notified.step (hn : Notified n) {l : NetLabel} (h : n.step reply idle l = some n') :
    Notified n' := by
  cases l with
  | send c bytes =>
    obtain ⟨-, ⟨⟩⟩ := Option.ite_none_left_eq_some.1 h
    refine hn.notify (List.prefix_append _ _) le_rfl fun interest hpolls => ?_
    cases interest with
    | input => exact .inr rfl
    | output =>
      left
      rw [polls_notify_output] at hpolls
      exacts [hpolls, rfl, rfl]
  | shut c =>
    obtain ⟨-, ⟨⟩⟩ := Option.ite_none_left_eq_some.1 h
    refine hn.notify (List.prefix_refl _) le_rfl fun interest hpolls => ?_
    cases interest with
    | input => exact .inr rfl
    | output =>
      left
      rw [polls_notify_output] at hpolls
      exacts [hpolls, rfl, rfl]
  | reset c =>
    cases h
    exact hn.notify (List.prefix_refl _) le_rfl fun interest _ => .inr rfl
  | take c count =>
    cases h
    refine hn.notify (List.prefix_refl _) (Nat.le_add_right _ _) fun interest hpolls => ?_
    cases interest with
    | input =>
      left
      rw [polls_notify_input] at hpolls
      exacts [hpolls, rfl, rfl, rfl]
    | output => exact .inr rfl
  | skip fd =>
    obtain ⟨hsilent, ⟨⟩⟩ := Option.ite_none_left_eq_some.1 h
    refine ⟨hn.received, hn.written, fun fd' c interest => ?_⟩
    intro (hreg : n.server.registration fd' = _) (howner : n.server.owner fd' = _)
      (hpolls : n.polls c interest = true)
    have hready := hn.listed fd' c interest hreg howner hpolls
    have hne : fd' ≠ fd := by
      rintro rfl
      exact hsilent (by simp [signals, hready, howner, hreg, hpolls])
    exact (Function.update_of_ne hne _ _).trans hready
  | server l => exact hn.server h

theorem notified_of_reachable {G : Network Q → NetLabel → Prop}
    (h : (lts reply idle).ReachableIf G n) : Notified n := by
  refine h.invariant ⟨?_, ?_, ?_⟩ fun n l n' _ hn _ hstep => hn.step hstep
  · exact fun c => List.nil_prefix
  · exact fun c => Nat.zero_le _
  · rintro fd c interest ⟨⟩

theorem server_reachable {fd : Fd} (h : (lts reply idle).ReachableIf (Calm fd) n) :
    (HttpServer.lts reply idle).ReachableIf (HttpServer.Undisturbed (fun _ => True) fd)
      n.server := by
  induction h with
  | init => exact .init
  | @step n n' l _ hcalm hstep ih =>
    rcases server_or_eq hstep with ⟨l, rfl⟩ | hsame
    · obtain ⟨-, hserver, -⟩ := server_cases hstep
      exact ih.step hcalm hserver
    · rw [hsame]
      exact ih

variable {site : Site Id}

/-- **When the server rests, its clients are served.**  If `epoll_wait` has nothing to deliver on a
descriptor, no task is left and nothing has disturbed the connection (`Calm`), then either every
byte that the client has sent is read, it has not ended its stream, and exactly the responses to its
requests are written, none of which closes the connection; or the socket is full. -/
theorem rest_served {fd : Fd} {c : ConnId} (h : (lts site.reply idle).ReachableIf (Calm fd) n)
    (hrest : n.Rests fd) (hc : n.server.connections.lookup fd = some c) :
    (n.server.received c = (n.peers c).sent ∧ (n.peers c).shut = false ∧ ∃ k, ∀ m, k ≤ m →
      n.server.written c = (site.responses m (n.peers c).sent).flatten ∧
        ∀ r ∈ site.responses m (n.peers c).sent, ¬ SaysClose r) ∨
    ((n.server.written c).length = (n.peers c).window ∧ (n.server.conns c).unsent ≠ [] ∧
      ∃ k, ∀ m, k ≤ m → n.server.written c ++ (n.server.conns c).unsent <+:
        (site.responses m (n.peers c).sent).flatten) := by
  have hn := notified_of_reachable h
  have hs := HttpServer.serving_of_reachable site.reply_bytes_ne_nil (server_reachable h)
  have hlatest := hs.single.latest hc
  have howner := hs.single.owned.table fd c hc
  obtain ⟨interest, hreg⟩ := exists_armed hs.single hrest hc
  cases interest with
  | input =>
    obtain ⟨hreceived, hshut⟩ := hn.rest_input hrest howner hreg
    obtain ⟨-, hwritten⟩ := hs.armed_input hlatest hc hreg
    exact .inl ⟨hreceived, hshut, hreceived ▸ hwritten⟩
  | output =>
    obtain ⟨hunsent, hprefix⟩ := hs.armed_output hlatest (hn.received c) hc hreg
    exact .inr ⟨hn.rest_output hrest howner hreg, hunsent, hprefix⟩

end Step

/-- The server of the sample runs on its sockets. -/
abbrev sample : LTS (Network (TimerHeap.SortedNodes ℕ ℕ)) NetLabel := lts Site.empty.reply 30

/-- The client sends a request before it is accepted, and gets its answer. -/
def servedRun : List NetLabel :=
  [.send 0 HttpServer.pageRequest, .take 0 1000] ++ (HttpServer.endedRun.take 51).map .server

theorem rest_served_sample :
    ∃ n, sample.ReachableIf (Calm 5) n ∧ (n.peers 0).sent = HttpServer.pageRequest ∧
      n.server.received 0 = HttpServer.pageRequest ∧ ∃ k, ∀ m, k ≤ m →
        n.server.written 0 = (Site.empty.responses m HttpServer.pageRequest).flatten := by
  have hallowed : sample.Allowed (Calm 5) sample.init servedRun := by decide +kernel
  obtain ⟨n, hrun, hmain, hqueue, htasks, hsilent, hc, hsent, hroom⟩ :
      ∃ n ∈ sample.run sample.init servedRun, n.server.main = .wait ∧ n.server.queue = [] ∧
        n.server.tasks = [] ∧ n.signals 5 = false ∧ n.server.connections.lookup 5 = some 0 ∧
        (n.peers 0).sent = HttpServer.pageRequest ∧
        (n.server.written 0).length ≠ (n.peers 0).window := by decide +kernel
  have h := LTS.ReachableIf.run .init hallowed hrun
  rcases rest_served h ⟨hmain, hqueue, htasks, hsilent⟩ hc with ⟨hreceived, -, k, hk⟩ | ⟨hfull, -⟩
  · rw [hsent] at hreceived hk
    exact ⟨n, h, hsent, hreceived, k, fun m hm => (hk m hm).1⟩
  · exact absurd hfull hroom

end Network

end MiniServer
