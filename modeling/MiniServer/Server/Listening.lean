import MiniServer.Server.Tokens

/-!
# The listening socket

The listening socket is registered with `EPOLLET`: a client that connects raises an edge, and
`epoll_wait` delivers it once.  `handleAccept` answers it with a loop around `accept`, which is to
go on until the backlog is empty, but ends at every error.

`Listening` is the server with its backlog.  A transient error strands the clients behind the failed
one: they wait until another client connects (`Stranded.step`).  In a run in which every transient
error finds no other client waiting, or a new edge, no client is stranded (`no_client_stranded`).
-/

namespace MiniServer

/-- A client in the backlog; `reset` when it has given up. -/
structure Waiting where
  peerIp : Bytes
  reset : Bool := false
  deriving DecidableEq, Repr

/-- The server with the listening socket; `edge` is an edge that `epoll_wait` has not delivered. -/
structure Listening (Q : Type) where
  server : HttpServer Q
  backlog : List Waiting := []
  edge : Bool := false

/-- Steps of the server, of its clients and of `accept`. -/
inductive ListenLabel where
  /-- A client connects. -/
  | arrive (peerIp : Bytes)
  /-- A client that waits gives up. -/
  | reset (i : ℕ)
  /-- `accept` returns a descriptor for the first client. -/
  | accepted (fd : Fd)
  /-- `accept` fails with `ECONNABORTED`: the first client has given up, and is taken off. -/
  | aborted
  /-- `accept` fails with `EINTR`. -/
  | interrupted
  /-- `accept` fails with `EAGAIN`. -/
  | again
  /-- Another step of the server. -/
  | server (l : Label)
  deriving DecidableEq

/-- The calls of `handleAccept` that are running or follow from a delivered event. -/
def Main.owed (m : Main) : ℕ :=
  m.pending.count .listen + match m with
    | .accept _ => 1
    | .register _ _ _ => 1
    | .add _ _ => 1
    | _ => 0

namespace Listening

variable {Q : Type}

/-- The edge after a step of the server: `epoll_wait` delivers it at most once.  `none` for the
results of `accept`, which depend on the backlog. -/
def edgeAfter (edge : Bool) : Label → Option Bool
  | .main (.events evs) =>
    if evs.count .listen ≤ edge.toNat then some (edge && evs.count .listen = 0) else none
  | .main (.accepted _ _) => none
  | .main .refused => none
  | _ => some edge

section Step

variable [PriorityQueue Q (TimerHeap.Node Fd ℕ) TimerHeap.later]
variable (reply : Bytes → Answer) (idle : ℕ)

/-- `accept` fails. -/
def refuse (s : Listening Q) (backlog : List Waiting) : Option (Listening Q) :=
  (s.server.step reply idle (.main .refused)).map fun server => { s with server, backlog }

/-- A step of the server with its listening socket. -/
def step (s : Listening Q) : ListenLabel → Option (Listening Q)
  | .arrive peerIp => some { s with backlog := s.backlog ++ [{ peerIp }], edge := true }
  | .reset i => some { s with backlog := s.backlog.modify i fun w => { w with reset := true } }
  | .accepted fd =>
    match s.backlog with
    | [] => none
    | w :: backlog =>
      (s.server.step reply idle (.main (.accepted fd w.peerIp))).map fun server =>
        { s with server, backlog }
  | .aborted =>
    match s.backlog with
    | [] => none
    | w :: backlog => if w.reset then s.refuse reply idle backlog else none
  | .interrupted => s.refuse reply idle s.backlog
  | .again => if s.backlog = [] then s.refuse reply idle [] else none
  | .server l =>
    (edgeAfter s.edge l).bind fun edge =>
      (s.server.step reply idle l).map fun server => { s with server, edge }

/-- The server from its start on, with the clients that connect. -/
def lts : LTS (Listening Q) ListenLabel where
  init := { server := (HttpServer.lts reply idle).init }
  step s l := s.step reply idle l

/-- A transient error of `accept` finds no other client waiting, or a new edge. -/
def Harmless (s : Listening Q) : ListenLabel → Prop
  | .aborted => s.backlog.tail = [] ∨ s.edge = true
  | .interrupted => s.backlog = [] ∨ s.edge = true
  | _ => True

instance (s : Listening Q) : ∀ l, Decidable (s.Harmless l)
  | .aborted => inferInstanceAs (Decidable (_ ∨ _))
  | .interrupted => inferInstanceAs (Decidable (_ ∨ _))
  | .arrive _ => inferInstanceAs (Decidable True)
  | .reset _ => inferInstanceAs (Decidable True)
  | .accepted _ => inferInstanceAs (Decidable True)
  | .again => inferInstanceAs (Decidable True)
  | .server _ => inferInstanceAs (Decidable True)

variable {reply idle} {s s' : Listening Q}

/-! ### Calls of `handleAccept` -/

theorem wait_of_events {s s' : HttpServer Q} {evs : List Event}
    (h : s.mainStep reply idle (.events evs) = some s') :
    s.main = .wait ∧ s'.main = .events evs := by
  generalize hr : MainSys.events evs = r at h
  unfold HttpServer.mainStep at h
  split at h <;> cases hr
  · obtain ⟨s₁, -, rfl⟩ := Option.map_eq_some_iff.1 h
    exact ⟨‹_›, rfl⟩
  · cases h

theorem accept_of_accepted {s s' : HttpServer Q} {fd : Fd} {peerIp : Bytes}
    (h : s.mainStep reply idle (.accepted fd peerIp) = some s') :
    ∃ rest, s.main = .accept rest ∧ s'.main = .register fd peerIp rest := by
  generalize hr : MainSys.accepted fd peerIp = r at h
  unfold HttpServer.mainStep at h
  split at h <;> cases hr
  · split_ifs at h
    cases h
    exact ⟨_, ‹_›, rfl⟩
  · cases h

theorem accept_of_refused {s s' : HttpServer Q} (h : s.mainStep reply idle .refused = some s') :
    ∃ rest, s.main = .accept rest ∧ s'.main = .events rest := by
  generalize hr : MainSys.refused = r at h
  unfold HttpServer.mainStep at h
  split at h <;> cases hr
  · cases h
    exact ⟨_, ‹_›, rfl⟩
  · cases h

/-- In front of `accept` there is nothing but its results. -/
theorem accept_cases {s s' : HttpServer Q} {r : MainSys} {rest : List Event}
    (hmain : s.main = .accept rest) (h : s.mainStep reply idle r = some s') :
    (∃ fd peerIp, r = .accepted fd peerIp) ∨ r = .refused := by
  cases r with
  | accepted fd peerIp => exact .inl ⟨fd, peerIp, rfl⟩
  | refused => exact .inr rfl
  | _ => simp [HttpServer.mainStep, hmain] at h

/-- A step of the main thread that is no `epoll_wait` and no `accept` keeps what is owed. -/
theorem owed_mainStep {s s' : HttpServer Q} {r : MainSys} (h : s.mainStep reply idle r = some s')
    (hevents : ∀ evs, r ≠ .events evs) (haccepted : ∀ fd peerIp, r ≠ .accepted fd peerIp)
    (hrefused : r ≠ .refused) : s'.main.owed = s.main.owed := by
  cases HttpServer.mainStep_cases h with
  | loop hm =>
    rw [hm]
    show (if s.running then Main.wait else .stop).owed = _
    split_ifs <;> rfl
  | wait _ _ hr => exact absurd hr (hevents _)
  | accepted _ hr => exact absurd hr (haccepted _ _)
  | refused hm =>
    rcases accept_cases hm h with ⟨fd, peerIp, rfl⟩ | rfl
    · exact absurd rfl (haccepted fd peerIp)
    · exact absurd rfl hrefused
  | listen hm => rw [hm]; simp [Main.owed, Main.pending]
  | hangup hm => rw [hm]; simp [Main.owed, Main.pending]
  | ready hm => rw [hm]; simp [Main.owed, Main.pending]
  | @close fd pc caller _ pc' hm hperform =>
    rw [hm]
    cases pc' with
    | some pc' => cases caller <;> rfl
    | none => cases caller <;> rfl
  | interrupted hm => rw [hm]; rfl
  | failed hm => rw [hm]; rfl
  | batchEnd hm => rw [hm]; rfl
  | register hm => rw [hm]; rfl
  | add hm => rw [hm]; rfl
  | gone hm => rw [hm]; rfl
  | dispatch hm => rw [hm]; rfl
  | begin hm => rw [hm]; rfl
  | discard hm => rw [hm]; rfl
  | enqueue hm => rw [hm]; rfl
  | idle hm => rw [hm]; rfl
  | idleEnd hm => rw [hm]; rfl
  | idleNext hm => rw [hm]; rfl
  | stop hm => rw [hm]; rfl
  | join hm => rw [hm]; rfl
  | shutdown hm => rw [hm]; rfl

/-- The other steps do not touch the main thread. -/
theorem main_step {s s' : HttpServer Q} {l : Label} (h : s.step reply idle l = some s')
    (hl : ∀ r, l ≠ .main r) : s'.main = s.main := by
  cases l with
  | tick d => cases h; rfl
  | requestStop => cases h; rfl
  | main r => exact absurd rfl (hl r)
  | start =>
    obtain ⟨t, queue, -, rfl⟩ := HttpServer.start_cases h
    rfl
  | task i r =>
    obtain ⟨_, _, _, s₁, pc, -, -, hperform, rfl⟩ := HttpServer.taskStep_cases h
    show s₁.main = s.main
    rw [HttpServer.perform_eq hperform]

/-- `epoll_wait` turns an edge into a call of `handleAccept`, or delivers none. -/
theorem owed_wait {s s' : HttpServer Q} {evs : List Event} {edge edge' : Bool}
    (h : s.mainStep reply idle (.events evs) = some s')
    (hedge : edgeAfter edge (.main (.events evs)) = some edge') :
    s'.main.owed + edge'.toNat = s.main.owed + edge.toNat ∧ s'.main.owed ≤ 1 := by
  obtain ⟨hmain, hmain'⟩ := wait_of_events h
  have howed : s'.main.owed = evs.count .listen := by rw [hmain']; rfl
  have hnone : s.main.owed = 0 := by rw [hmain]; rfl
  rw [edgeAfter] at hedge
  split_ifs at hedge with hcount
  cases hedge
  rw [howed, hnone]
  cases edge with
  | false =>
    rw [Nat.le_zero.1 hcount]
    exact ⟨rfl, Nat.zero_le 1⟩
  | true =>
    rcases Nat.le_one_iff_eq_zero_or_eq_one.1 hcount with hzero | hone
    · rw [hzero]
      exact ⟨rfl, Nat.zero_le 1⟩
    · rw [hone]
      exact ⟨rfl, Nat.le_refl 1⟩

/-- A step of the server that is no `accept`. -/
theorem owed_step {s s' : HttpServer Q} {l : Label} {edge edge' : Bool}
    (h : s.step reply idle l = some s') (hedge : edgeAfter edge l = some edge') :
    s'.main.owed + edge'.toNat = s.main.owed + edge.toNat ∧
      (s.main.owed ≤ 1 → s'.main.owed ≤ 1) := by
  by_cases hevents : ∃ evs, l = .main (.events evs)
  · obtain ⟨evs, rfl⟩ := hevents
    obtain ⟨hsum, hone⟩ := owed_wait h hedge
    exact ⟨hsum, fun _ => hone⟩
  have hsame : s'.main.owed = s.main.owed ∧ edge' = edge := by
    by_cases hmain : ∃ r, l = .main r
    · obtain ⟨r, rfl⟩ := hmain
      refine ⟨owed_mainStep h ?_ ?_ ?_, ?_⟩
      · rintro evs rfl
        exact hevents ⟨evs, rfl⟩
      · rintro fd peerIp rfl
        cases hedge
      · rintro rfl
        cases hedge
      · cases r with
        | events evs => exact absurd ⟨evs, rfl⟩ hevents
        | _ => cases hedge <;> rfl
    · rw [main_step h fun r hr => hmain ⟨r, hr⟩]
      cases l with
      | main r => exact absurd ⟨r, rfl⟩ hmain
      | _ => cases hedge; exact ⟨rfl, rfl⟩
  rw [hsame.1, hsame.2]
  exact ⟨rfl, id⟩

/-- `accept` succeeds within a call of `handleAccept`, which goes on. -/
theorem owed_accepted {s s' : HttpServer Q} {fd : Fd} {peerIp : Bytes}
    (h : s.step reply idle (.main (.accepted fd peerIp)) = some s') :
    s'.main.owed = s.main.owed ∧ 0 < s.main.owed := by
  obtain ⟨rest, hmain, hmain'⟩ := accept_of_accepted h
  rw [hmain, hmain']
  exact ⟨rfl, Nat.succ_pos _⟩

/-- A failed `accept` ends its call of `handleAccept`. -/
theorem owed_refuse {backlog : List Waiting} (h : s.refuse reply idle backlog = some s') :
    s.server.main.owed = s'.server.main.owed + 1 ∧ s'.backlog = backlog ∧ s'.edge = s.edge := by
  obtain ⟨server, hstep, rfl⟩ := Option.map_eq_some_iff.1 h
  obtain ⟨rest, hmain, hmain'⟩ := accept_of_refused hstep
  refine ⟨?_, rfl, rfl⟩
  rw [hmain]
  show _ = server.main.owed + 1
  rw [hmain']
  rfl

theorem accepted_cases {fd : Fd} (h : s.step reply idle (.accepted fd) = some s') :
    ∃ w backlog server, s.backlog = w :: backlog ∧
      s.server.step reply idle (.main (.accepted fd w.peerIp)) = some server ∧
      s' = { s with server, backlog } := by
  cases hbacklog : s.backlog with
  | nil => simp [Listening.step, hbacklog] at h
  | cons w backlog =>
    simp only [Listening.step, hbacklog] at h
    obtain ⟨server, hstep, rfl⟩ := Option.map_eq_some_iff.1 h
    exact ⟨w, backlog, server, rfl, hstep, rfl⟩

theorem aborted_cases (h : s.step reply idle .aborted = some s') :
    s.backlog ≠ [] ∧ s.refuse reply idle s.backlog.tail = some s' := by
  cases hbacklog : s.backlog with
  | nil => simp [Listening.step, hbacklog] at h
  | cons w backlog =>
    simp only [Listening.step, hbacklog] at h
    split_ifs at h
    exact ⟨List.cons_ne_nil w backlog, h⟩

theorem again_cases (h : s.step reply idle .again = some s') :
    s.backlog = [] ∧ s.refuse reply idle [] = some s' := by
  rw [Listening.step] at h
  split_ifs at h with hnil
  exact ⟨hnil, h⟩

/-- A step is one of the server, or of a client. -/
theorem server_step {l : ListenLabel} (h : s.step reply idle l = some s') :
    s'.server = s.server ∨ ∃ l', s.server.step reply idle l' = some s'.server := by
  have hrefuse : ∀ {backlog}, s.refuse reply idle backlog = some s' →
      ∃ l', s.server.step reply idle l' = some s'.server := by
    intro backlog h
    obtain ⟨server, hstep, rfl⟩ := Option.map_eq_some_iff.1 h
    exact ⟨_, hstep⟩
  cases l with
  | arrive peerIp => cases h; exact .inl rfl
  | reset i => cases h; exact .inl rfl
  | accepted fd =>
    obtain ⟨w, backlog, server, -, hstep, rfl⟩ := accepted_cases h
    exact .inr ⟨_, hstep⟩
  | aborted => exact .inr (hrefuse (aborted_cases h).2)
  | interrupted => exact .inr (hrefuse h)
  | again => exact .inr (hrefuse (again_cases h).2)
  | server l =>
    obtain ⟨edge, -, h⟩ := Option.bind_eq_some_iff.1 h
    obtain ⟨server, hstep, rfl⟩ := Option.map_eq_some_iff.1 h
    exact .inr ⟨l, hstep⟩

/-- **The server under a listening socket runs as before**: what holds in every run of the server
holds here. -/
theorem server_reachable (h : (lts reply idle).Reachable s) :
    (HttpServer.lts reply idle).Reachable s.server := by
  induction h with
  | init => exact .init
  | step _ _ hstep ih =>
    rcases server_step hstep with heq | ⟨l', hl'⟩
    · rw [heq]
      exact ih
    · exact .step ih trivial hl'

/-! ### The invariant -/

/-- Somebody looks after the clients that wait: there is an edge, or a call of `handleAccept` is
owed. -/
structure Attended (s : Listening Q) : Prop where
  once : s.server.main.owed ≤ 1
  waits : s.backlog = [] ∨ 0 < s.server.main.owed + s.edge.toNat

/-- A failed `accept` leaves nobody behind where the backlog is empty or there is an edge. -/
theorem Attended.refuse {backlog : List Waiting} (hs : Attended s)
    (hedge : backlog = [] ∨ s.edge = true) (h : s.refuse reply idle backlog = some s') :
    Attended s' := by
  obtain ⟨howed, hbacklog, hedge'⟩ := owed_refuse h
  have honce := hs.once
  refine ⟨by omega, ?_⟩
  rw [hbacklog, hedge']
  refine hedge.imp_right fun hedge => ?_
  rw [hedge]
  exact Nat.succ_pos _

theorem Attended.step {l : ListenLabel} (hs : Attended s) (hl : s.Harmless l)
    (h : s.step reply idle l = some s') : Attended s' := by
  cases l with
  | arrive peerIp =>
    cases h
    exact ⟨hs.once, .inr (Nat.succ_pos _)⟩
  | reset i =>
    cases h
    refine ⟨hs.once, hs.waits.imp_left fun hnil => ?_⟩
    show s.backlog.modify i _ = []
    rw [hnil, List.modify_nil]
  | accepted fd =>
    obtain ⟨w, backlog, server, -, hstep, rfl⟩ := accepted_cases h
    obtain ⟨howed, hpos⟩ := owed_accepted hstep
    exact ⟨howed ▸ hs.once, .inr (Nat.add_pos_left (howed ▸ hpos) _)⟩
  | aborted => exact hs.refuse hl (aborted_cases h).2
  | interrupted => exact hs.refuse hl h
  | again => exact hs.refuse (.inl rfl) (again_cases h).2
  | server l =>
    obtain ⟨edge, hedge, h⟩ := Option.bind_eq_some_iff.1 h
    obtain ⟨server, hstep, rfl⟩ := Option.map_eq_some_iff.1 h
    obtain ⟨hsum, hone⟩ := owed_step hstep hedge
    exact ⟨hone hs.once, hs.waits.imp_right fun hpos => hsum ▸ hpos⟩

/-- Clients wait, and nothing but another client will make the server look. -/
structure Stranded (s : Listening Q) : Prop where
  waits : s.backlog ≠ []
  edge : s.edge = false
  owed : s.server.main.owed = 0

/-- A harmful error strands the clients that are left. -/
theorem Attended.stranded {l : ListenLabel} (hs : Attended s) (hl : ¬ s.Harmless l)
    (h : s.step reply idle l = some s') : Stranded s' := by
  have hrefuse : ∀ {backlog}, ¬ (backlog = [] ∨ s.edge = true) →
      s.refuse reply idle backlog = some s' → Stranded s' := by
    intro backlog hl h
    obtain ⟨howed, hbacklog, hedge⟩ := owed_refuse h
    obtain ⟨hwaits, hnone⟩ := not_or.1 hl
    have honce := hs.once
    exact ⟨hbacklog ▸ hwaits, hedge.trans (Bool.not_eq_true _ ▸ hnone), by omega⟩
  cases l with
  | aborted => exact hrefuse hl (aborted_cases h).2
  | interrupted => exact hrefuse hl h
  | _ => exact absurd trivial hl

/-- A stranded client stays stranded until another client connects. -/
theorem Stranded.step {l : ListenLabel} (hs : Stranded s) (hl : ∀ peerIp, l ≠ .arrive peerIp)
    (h : s.step reply idle l = some s') : Stranded s' := by
  have hrefuse : ∀ {backlog}, s.refuse reply idle backlog ≠ some s' := by
    intro backlog h
    have howed := (owed_refuse h).1
    rw [hs.owed] at howed
    omega
  cases l with
  | arrive peerIp => exact absurd rfl (hl peerIp)
  | reset i =>
    cases h
    refine ⟨fun hnil => hs.waits ?_, hs.edge, hs.owed⟩
    have hlength := congrArg List.length hnil
    rw [List.length_modify] at hlength
    exact List.length_eq_zero_iff.1 hlength
  | accepted fd =>
    obtain ⟨w, backlog, server, -, hstep, -⟩ := accepted_cases h
    exact absurd hs.owed (owed_accepted hstep).2.ne'
  | aborted => exact absurd (aborted_cases h).2 hrefuse
  | interrupted => exact absurd h hrefuse
  | again => exact absurd (again_cases h).2 hrefuse
  | server l =>
    obtain ⟨edge, hedge, h⟩ := Option.bind_eq_some_iff.1 h
    obtain ⟨server, hstep, rfl⟩ := Option.map_eq_some_iff.1 h
    have hsum := (owed_step hstep hedge).1
    rw [hs.owed, hs.edge, Bool.toNat_false] at hsum
    obtain ⟨howed, hnone⟩ := Nat.add_eq_zero_iff.1 hsum
    exact ⟨hs.waits, Bool.toNat_eq_zero.1 hnone, howed⟩

theorem Stranded.run {ls : List ListenLabel} (hs : Stranded s)
    (hls : ∀ peerIp, .arrive peerIp ∉ ls) (h : (lts reply idle).run s ls = some s') :
    Stranded s' := by
  induction ls generalizing s with
  | nil =>
    cases h
    exact hs
  | cons l ls ih =>
    obtain ⟨s₁, hstep, h⟩ := Option.bind_eq_some_iff.1 h
    refine ih (hs.step (fun peerIp hl => hls peerIp ?_) hstep) (fun peerIp hmem => ?_) h
    · rw [hl]
      exact List.mem_cons_self
    · exact hls peerIp (List.mem_cons_of_mem l hmem)

/-- **No client is stranded where transient errors are harmless.**  In every such run, when the
event loop is about to call `epoll_wait`, no client waits, or there is an edge to be delivered.
After an error that is not harmless, clients wait without an edge until another client connects. -/
theorem no_client_stranded (h : (lts reply idle).ReachableIf Harmless s) :
    (s.server.main = .wait → s.backlog = [] ∨ s.edge = true) ∧
      ∀ l s₁ ls s₂, ¬ s.Harmless l → s.step reply idle l = some s₁ →
        (∀ peerIp, .arrive peerIp ∉ ls) → (lts reply idle).run s₁ ls = some s₂ →
        s₂.backlog ≠ [] ∧ s₂.edge = false := by
  have hs : Attended s := by
    refine LTS.ReachableIf.invariant h ⟨Nat.zero_le _, .inl rfl⟩ ?_
    exact fun s l s' _ hs hl hstep => hs.step hl hstep
  refine ⟨fun hwait => hs.waits.imp_right fun hpos => ?_, fun l s₁ ls s₂ hl hstep hls hrun => ?_⟩
  · rw [hwait, show Main.wait.owed = 0 from rfl, Nat.zero_add] at hpos
    cases hedge : s.edge with
    | true => rfl
    | false =>
      rw [hedge] at hpos
      exact absurd hpos (Nat.lt_irrefl 0)
  · have hstranded := (hs.stranded hl hstep).run hls hrun
    exact ⟨hstranded.waits, hstranded.edge⟩

end Step

/-! ### Sample runs -/

/-- The sample server with its listening socket. -/
abbrev sample : LTS (Listening (TimerHeap.SortedNodes ℕ ℕ)) ListenLabel := lts Site.empty.reply 30

/-- A client is accepted, another one connects, and the loop comes back to `epoll_wait`. -/
def acceptRun : List ListenLabel :=
  [.server (.main .done), .arrive [], .server (.main (.events [.listen])), .server (.main .done),
    .accepted 5, .server (.main .done), .server (.main .done), .again, .arrive [],
    .server (.main .done), .server (.main .done), .server (.main .done), .server (.main .done)]

theorem no_client_stranded_accept : ∃ s, sample.ReachableIf Harmless s ∧
    s.server.main = .wait ∧ (s.backlog = [] ∨ s.edge = true) := by
  have hharmless : sample.Allowed Harmless sample.init acceptRun := by decide +kernel
  obtain ⟨s, hrun, hwait⟩ : ∃ s ∈ sample.run sample.init acceptRun, s.server.main = .wait := by
    decide +kernel
  have h := LTS.ReachableIf.run .init hharmless hrun
  exact ⟨s, h, hwait, (no_client_stranded h).1 hwait⟩

/-- **One client that gives up strands the next.**  Two clients connect within one edge, and the
first gives up before it is accepted. -/
theorem client_stranded : ∃ s ∈ sample.run sample.init
    [.server (.main .done), .arrive [], .arrive [], .reset 0, .server (.main (.events [.listen])),
      .server (.main .done), .aborted, .server (.main .done), .server (.main .done),
      .server (.main .done), .server (.main .done)],
    s.server.main = .wait ∧ ¬ (s.backlog = [] ∨ s.edge = true) := by
  decide +kernel

end Listening

end MiniServer
