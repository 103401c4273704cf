import MiniServer.Server.Answers

/-!
# What a disturbed client gets

`responses_in_order` is about a client that nothing disturbs.  Here the idle timer, a hang-up, a
socket error, the end of the stream or `stop` may close a connection at any point, also while a
worker writes to it.  What the client has got is cut off there, and is right up to there
(`written_in_order`): after the connection is marked closed, a worker that holds it writes at most
what it has already gathered.
-/

namespace MiniServer

namespace Pc

variable {C : Type}

/-- A program counter of `closeConnection`. -/
def closes : Pc C → Bool
  | .closeBegin => true
  | pc => pc.pastErase

theorem closes_iff {pc : Pc C} : pc.closes = true ↔ pc = .closeBegin ∨ pc.pastErase = true := by
  cases pc <;> simp [closes, pastErase]

end Pc

/-! ### Sessions -/

namespace Session

variable (reply : Bytes → Answer)

/-- What is known of a session while a task is at `pc`, whatever disturbs it: what `writev` is about
to write is due, and as long as the connection is open the handlers go on as if it stayed so. -/
structure Survives {C : Type} (σ : Session) (pc : Pc C) : Prop where
  gathered : ∀ c iov, pc = .writev c iov →
    ∃ done, Ordered reply { σ with written := σ.written ++ iov.flatten } done
  runs : σ.conn.closed = false → pc.closes = false → Runs reply (fun _ => True) σ pc

variable {reply} {σ σ' : Session} {done : List Bytes}

/-- Only what is read and written counts. -/
theorem Ordered.congr (h : Ordered reply σ done) (hreceived : σ'.received = σ.received)
    (hwritten : σ'.written = σ.written) : Ordered reply σ' done where
  cuts := hreceived ▸ h.cuts
  written := hwritten ▸ h.written
  keepsAlive := h.keepsAlive

theorem Ordered.read (h : Ordered reply σ done) {bytes : Bytes}
    (hreceived : σ'.received = σ.received ++ bytes) (hwritten : σ'.written = σ.written) :
    Ordered reply σ' done where
  cuts := by
    obtain ⟨rest, hcuts⟩ := h.cuts
    exact ⟨_, hreceived ▸ hcuts.append bytes⟩
  written := hwritten ▸ h.written
  keepsAlive := h.keepsAlive

/-- The socket takes a part of what was gathered. -/
theorem Ordered.wrote {iov : List Bytes} {n : ℕ}
    (h : Ordered reply { σ with written := σ.written ++ iov.flatten } done)
    (hreceived : σ'.received = σ.received)
    (hwritten : σ'.written = σ.written ++ iov.flatten.take n) : Ordered reply σ' done where
  cuts := hreceived ▸ h.cuts
  written := by
    rw [hwritten]
    exact ((List.prefix_append_right_inj _).2 (List.take_prefix n _)).trans h.written
  keepsAlive := h.keepsAlive

theorem Runs.survives {C : Type} {pc : Pc C} (h : Runs reply (fun _ => True) σ pc) :
    Survives reply σ pc where
  gathered c iov hpc := by
    subst hpc
    obtain ⟨done, raw, hraw, -, rfl⟩ := h
    refine ⟨done ++ [raw], hraw.ordered.cuts, ?_, hraw.ordered.keepsAlive⟩
    exact hraw.written ▸ List.prefix_rfl
  runs _ _ := h

theorem Awaits.survives {i : Interest} (h : Awaits reply σ i) :
    Survives reply σ (HttpServer.beginPc i) := by
  refine Runs.survives ?_
  cases i <;> exact h

/-- The connection is marked closed while the task is at `pc`. -/
theorem Survives.markClosed {C : Type} {pc : Pc C} (h : Survives reply σ pc)
    (hreceived : σ'.received = σ.received) (hwritten : σ'.written = σ.written)
    (hclosed : σ'.conn.closed = true) : Survives reply σ' pc where
  gathered c iov hpc := by
    obtain ⟨done, hdone⟩ := h.gathered c iov hpc
    exact ⟨done, hdone.congr hreceived (congrArg (· ++ iov.flatten) hwritten)⟩
  runs hopen := by
    rw [hclosed] at hopen
    cases hopen

end Session

namespace HttpServer

open Session (Ordered Awaits Survives)

variable {Q : Type}

/-- The token of `fd` is with `epoll` or the main thread. -/
def Awaited (s : HttpServer Q) (fd : Fd) (i : Interest) : Prop :=
  s.registration fd = some (some i) ∨ s.main.Has fd i

variable (reply : Bytes → Answer)

/-- What is known of all sessions, whatever disturbs them. -/
structure Disturbed (s : HttpServer Q) : Prop where
  single : Single s
  unmade : ∀ c, s.next ≤ c → s.received c = [] ∧ s.written c = [] ∧ s.ended c = false
  ordered : ∀ c, ∃ done, Ordered reply (s.session c) done
  tasks : ∀ t ∈ s.queue ++ s.tasks, t.pc.active = true →
    Survives reply (s.session t.owner) t.pc
  waits : ∀ fd c i, s.connections.lookup fd = some c → s.Awaited fd i →
    Awaits reply (s.session c) i

variable {reply} {s s' : HttpServer Q}

/-- A step that leaves a session alone or marks its connection closed. -/
theorem Disturbed.move (hs : Disturbed reply s) (hsingle : Single s') (hnext : s'.next = s.next)
    (hsession : ∀ c, s'.session c = s.session c ∨
      s'.session c = { s.session c with conn := (s.conns c).markClosed })
    (htasks : ∀ t ∈ s'.queue ++ s'.tasks, t.pc.active = true → t ∈ s.queue ++ s.tasks)
    (hwaits : ∀ fd c i, s'.connections.lookup fd = some c → s'.Awaited fd i →
      s.connections.lookup fd = some c ∧ s.Awaited fd i) : Disturbed reply s' := by
  have hrecords : ∀ c, s'.received c = s.received c ∧ s'.written c = s.written c ∧
      s'.ended c = s.ended c := by
    intro c
    rcases hsession c with heq | heq <;>
      exact ⟨congrArg Session.received heq, congrArg Session.written heq,
        congrArg Session.ended heq⟩
  refine ⟨hsingle, fun c hc => ?_, fun c => ?_, fun t ht hactive => ?_, fun fd c i hc hi => ?_⟩
  · obtain ⟨hreceived, hwritten, hended⟩ := hrecords c
    rw [hreceived, hwritten, hended]
    exact hs.unmade c (hnext ▸ hc)
  · obtain ⟨done, hdone⟩ := hs.ordered c
    exact ⟨done, hdone.congr (hrecords c).1 (hrecords c).2.1⟩
  · have hsurvives := hs.tasks t (htasks t ht hactive) hactive
    rcases hsession t.owner with heq | heq
    · exact heq ▸ hsurvives
    · exact hsurvives.markClosed (hrecords _).1 (hrecords _).2.1 (by rw [heq]; rfl)
  · obtain ⟨hc', hi'⟩ := hwaits fd c i hc hi
    rcases hsession c with heq | heq
    · exact heq ▸ hs.waits fd c i hc' hi'
    · -- a registered connection is open
      have hopen : (s'.session c).conn.closed = false := hsingle.opened fd c hc
      rw [heq] at hopen
      cases hopen

/-- A step that changes the program counter of the main thread only, and takes no token. -/
theorem Disturbed.goto (hs : Disturbed reply s) {m m' : Main} {now : ℕ} {running : Bool}
    {timers : TimerHeap Q Fd ℕ} (hm : s.main = m)
    (hsingle : Single { s with now, running, timers, main := m' })
    (hhas : ∀ fd i, m'.Has fd i → m.Has fd i) :
    Disturbed reply { s with now, running, timers, main := m' } := by
  subst hm
  exact hs.move hsingle rfl (fun _ => .inl rfl) (fun _ ht _ => ht) fun fd c i hc hi =>
    ⟨hc, hi.imp id (hhas fd i)⟩

theorem Disturbed.wait (hs : Disturbed reply s) {s₁ : HttpServer Q} {evs : List Event}
    (hev : s.deliverAll evs = some s₁) (hsingle : Single { s₁ with main := .events evs }) :
    Disturbed reply { s₁ with main := .events evs } := by
  have hkind := deliverAll_kind hev
  obtain ⟨files, rfl⟩ := deliverAll_eq hev
  refine hs.move hsingle rfl (fun _ => .inl rfl) (fun _ ht _ => ht) fun fd c i hc hi => ⟨hc, ?_⟩
  rcases hi with hreg | hhas
  · exact .inl ((hkind fd).1 i hreg)
  · -- the token comes from the registration, and for the same event
    obtain ⟨j, hreg, hpossible⟩ := (hkind fd).2 i.kind (hhas.resolve_left (by rintro ⟨⟩))
    have hij : j = i := by cases i <;> simpa [Interest.kind, Kind.possible] using hpossible
    exact .inl (hij ▸ hreg)

theorem Disturbed.accepted (hs : Disturbed reply s) {fd : Fd} {peerIp : Bytes} {rest : List Event}
    (hm : s.main = .accept rest) (hfresh : s.latest fd = none)
    (hsingle : Single { s with
      files := Function.update s.files fd (some { owner := s.next })
      latest := Function.update s.latest fd (some s.next)
      main := .register fd peerIp rest }) :
    Disturbed reply { s with
      files := Function.update s.files fd (some { owner := s.next })
      latest := Function.update s.latest fd (some s.next)
      main := .register fd peerIp rest } := by
  refine hs.move hsingle rfl (fun _ => .inl rfl) (fun _ ht _ => ht) fun fd' c i hc hi => ⟨hc, ?_⟩
  have hfd : fd' ≠ fd := by
    rintro rfl
    rw [hs.single.latest hc] at hfresh
    cases hfresh
  rcases hi with hreg | hcurrent | hpending
  · left
    simpa only [registration, Function.update_of_ne hfd] using hreg
  · cases hcurrent
    exact absurd rfl hfd
  · exact .inr (.inr (by rw [hm]; exact hpending))

theorem Disturbed.add (hs : Disturbed reply s) {fd : Fd} {rest : List Event}
    (hm : s.main = .add fd rest)
    (hsingle : Single { s.epollAdd fd .input with main := .accept rest }) :
    Disturbed reply { s.epollAdd fd .input with main := .accept rest } := by
  refine hs.move hsingle rfl (fun _ => .inl rfl) (fun _ ht _ => ht) fun fd' c i hc hi => ⟨hc, ?_⟩
  rcases hi with hreg | hcurrent | hpending
  · have hreg : (s.epollAdd fd .input).registration fd' = some (some i) := hreg
    rw [epollAdd, registration_updateFile] at hreg
    by_cases hfd : fd' = fd
    · -- the new registration is for input
      subst hfd
      have hnone := hs.single.fresh fd' (by rw [hm]; rfl)
      rw [Function.update_self] at hreg
      cases hf : s.files fd' with
      | none => rw [hf] at hreg; cases hreg
      | some file =>
        rw [registration, hf, Option.bind_some] at hnone
        rw [hf, Option.bind_some, hnone] at hreg
        cases hreg
        exact .inr (.inl (by rw [hm]; rfl))
    · rw [Function.update_of_ne hfd] at hreg
      exact .inl hreg
  · cases hcurrent
  · exact .inr (.inr (by rw [hm]; exact hpending))

theorem Disturbed.begin (hs : Disturbed reply s) {fd : Fd} {c : ConnId} {i : Interest}
    {rest : List Event} (hm : s.main = .begin fd c i rest)
    (hsingle : Single
      { s.setConn c ((s.conns c).setProcessing true) with main := .enqueue fd c i rest }) :
    Disturbed reply
      { s.setConn c ((s.conns c).setProcessing true) with main := .enqueue fd c i rest } := by
  have hbegun := hs.single.begun fd c i rest (.inl hm)
  have hother : ∀ {c'}, c' ≠ c →
      (s.setConn c ((s.conns c).setProcessing true)).session c' = s.session c' := by
    intro c' hc'
    simp only [session, setConn, Function.update_of_ne hc']
  refine ⟨hsingle, hs.unmade, fun c' => ?_, fun t ht hactive => ?_, fun fd' c' j hc' hj => ?_⟩
  · obtain ⟨done, hdone⟩ := hs.ordered c'
    exact ⟨done, hdone.congr rfl rfl⟩
  · -- the main thread has the token, so no task works on this connection
    have hne : t.owner ≠ c := by
      rintro rfl
      have hfd : t.fd = fd :=
        hs.single.owned.inj _ _ _ (hs.single.attached t ht hactive) (hs.single.latest hbegun)
      refine hs.single.not_has ht hactive (i := i) (.inl ?_)
      rw [hm, hfd]
      rfl
    exact (hother hne).symm ▸ hs.tasks t ht hactive
  · have hwaits := hs.waits fd' c' j hc' (by
      rw [Awaited, hm]
      exact hj)
    show Awaits reply ((s.setConn c _).session c') j
    by_cases hcc : c' = c
    · subst hcc
      rw [session_setConn]
      exact hwaits.withFlags
    · exact (hother hcc).symm ▸ hwaits

theorem Disturbed.enqueue (hs : Disturbed reply s) {fd : Fd} {c : ConnId} {i : Interest}
    {rest : List Event} (hm : s.main = .enqueue fd c i rest)
    (hsingle : Single { s with queue := s.queue ++ [⟨fd, c, beginPc i⟩], main := .events rest }) :
    Disturbed reply { s with queue := s.queue ++ [⟨fd, c, beginPc i⟩], main := .events rest } := by
  refine ⟨hsingle, hs.unmade, hs.ordered, fun t ht hactive => ?_, fun fd' c' j hc' hj => ?_⟩
  · rw [List.append_assoc, List.singleton_append, List.perm_middle.mem_iff, List.mem_cons] at ht
    rcases ht with rfl | ht
    · -- the task begins where the main thread is
      refine (hs.waits fd c i (hs.single.begun fd c i rest (.inr hm)) (.inr (.inl ?_))).survives
      rw [hm]
      rfl
    · exact hs.tasks t ht hactive
  · refine hs.waits fd' c' j hc' (hj.imp id fun hhas => .inr ?_)
    rw [hm]
    exact hhas.resolve_left (by rintro ⟨⟩)

theorem Disturbed.shutdown (hs : Disturbed reply s)
    (hsingle : Single { s.closeAll with main := .stopped }) :
    Disturbed reply { s.closeAll with main := .stopped } := by
  refine hs.move hsingle rfl (fun c => ?_) (fun _ ht _ => ht) fun fd c i hc _ => ?_
  · simp only [session, closeAll]
    split_ifs
    · exact .inr rfl
    · exact .inl rfl
  · change (∅ : Finmap fun _ : Fd => ConnId).lookup fd = some c at hc
    rw [Finmap.lookup_empty] at hc
    cases hc

section Step

variable [PriorityQueue Q (TimerHeap.Node Fd ℕ) TimerHeap.later] {idle : ℕ}

theorem Disturbed.register (hs : Disturbed reply s) {fd : Fd} {peerIp : Bytes} {rest : List Event}
    (hm : s.main = .register fd peerIp rest)
    (hsingle : Single { s.register idle fd peerIp with main := .add fd rest }) :
    Disturbed reply { s.register idle fd peerIp with main := .add fd rest } := by
  obtain ⟨hlatest, -⟩ := hs.single.owned.main.register fd peerIp rest hm
  obtain ⟨hreceived, hwritten, hended⟩ := hs.unmade s.next le_rfl
  have hother : ∀ {c}, c ≠ s.next → (s.register idle fd peerIp).session c = s.session c := by
    intro c hc
    simp only [session, HttpServer.register, setConn, Function.update_of_ne hc]
  refine ⟨hsingle, fun c hc => hs.unmade c (Nat.le_of_succ_le hc), fun c => ?_,
    fun t ht hactive => ?_, fun fd' c i hc hi => ?_⟩
  · obtain ⟨done, hdone⟩ := hs.ordered c
    exact ⟨done, hdone.congr rfl rfl⟩
  · exact (hother (Nat.ne_of_lt (hs.single.owned.task t ht).made)).symm ▸ hs.tasks t ht hactive
  · have hc : (s.connections.insert fd s.next).lookup fd' = some c := hc
    by_cases hfd : fd' = fd
    · subst hfd
      rw [Finmap.lookup_insert] at hc
      cases hc
      -- the session of a new connection is empty
      have hinit : Awaits reply ((s.register idle fd' peerIp).session s.next) .input := by
        rw [show (s.register idle fd' peerIp).session s.next =
            ⟨{ fd := fd', peerIp }, [], [], false⟩
          by simp [session, HttpServer.register, setConn, hreceived, hwritten, hended]]
        exact ⟨[], Session.Answered.init rfl, Connection.framer_cut_nil⟩
      rcases hi with hreg | hcurrent | hpending
      · have hnone := hs.single.fresh fd' (by rw [hm]; rfl)
        have hreg : s.registration fd' = some (some i) := hreg
        rw [hnone] at hreg
        cases hreg
      · cases hcurrent
        exact hinit
      · -- a second token of the descriptor
        have hpos : 0 < rest.countP (Event.isFor fd') :=
          List.countP_pos_iff.2 ⟨_, hpending, by simp [Event.isFor]⟩
        have hunique := hs.single.unique fd'
        simp only [tally, hm, Main.tokens, Main.pending, Main.accepting, if_true] at hunique
        omega
    · rw [Finmap.lookup_insert_of_ne _ hfd] at hc
      have hne : c ≠ s.next := by
        rintro rfl
        exact hfd (hs.single.owned.inj fd' fd _ (hs.single.latest hc) hlatest)
      refine (hother hne).symm ▸ hs.waits fd' c i hc ?_
      rw [Awaited, hm]
      exact hi

/-- `closeConnection` changes the object that it marks closed only. -/
theorem session_closes {fd : Fd} {pc : Pc ConnId} {r : Sys} {pc' : Option (Pc ConnId)}
    (h : s.perform idle fd (pc.code reply) r = some (s', pc')) (hpc : pc.closes = true)
    (c : ConnId) : s'.session c = s.session c ∨
      s'.session c = { s.session c with conn := (s.conns c).markClosed } := by
  cases handler_cases h with
  | @markClosed c' =>
    by_cases hc : c = c'
    · subst hc
      exact .inr (session_setConn s c _)
    · left
      simp only [session, setConn, Function.update_of_ne hc]
  | closeGone _ => exact .inl rfl
  | closeErase _ => exact .inl rfl
  | del => exact .inl rfl
  | close => exact .inl rfl
  | _ => cases hpc

/-- `closeConnection` arms no descriptor. -/
theorem registration_closes {fd fd' : Fd} {pc : Pc ConnId} {r : Sys} {pc' : Option (Pc ConnId)}
    (h : s.perform idle fd (pc.code reply) r = some (s', pc')) (hpc : pc.closes = true)
    {i : Interest} (hi : s'.registration fd' = some (some i)) :
    s.registration fd' = some (some i) := by
  rcases perform_close_registration (Pc.closes_iff.1 hpc) h with heq | heq
  · rwa [heq] at hi
  · rw [heq] at hi
    by_cases hfd : fd' = fd
    · subst hfd
      rw [Function.update_self] at hi
      cases hi
    · rwa [Function.update_of_ne hfd] at hi

theorem Disturbed.close (hs : Disturbed reply s) {fd : Fd} {pc : Pc ConnId} {caller : Caller}
    {s₁ : HttpServer Q} {pc' : Option (Pc ConnId)} (hm : s.main = .closing fd pc caller)
    (h : s.perform idle fd (pc.code reply) .done = some (s₁, pc'))
    (hsingle : Single
      { s₁ with main := pc'.elim caller.main fun pc' => .closing fd pc' caller }) :
    Disturbed reply
      { s₁ with main := pc'.elim caller.main fun pc' => .closing fd pc' caller } := by
  have hpc := Pc.closes_iff.2 (hs.single.owned.main.closing fd pc caller hm)
  have hpending : (pc'.elim caller.main fun pc' => Main.closing fd pc' caller).pending =
      s.main.pending := by
    rw [hm]
    cases pc' <;> cases caller <;> rfl
  have hcurrent : (pc'.elim caller.main fun pc' => Main.closing fd pc' caller).current = none := by
    cases pc' <;> cases caller <;> rfl
  have hnext : s₁.next = s.next := by rw [perform_eq h]
  have htasks : s₁.queue ++ s₁.tasks = s.queue ++ s.tasks := by rw [perform_eq h]
  have hsession := session_closes h hpc
  refine hs.move hsingle hnext hsession (fun t ht _ => htasks ▸ ht)
    fun fd' c i hc hi => ⟨(perform_effect h).table fd' c hc, ?_⟩
  rcases hi with hreg | hhas | hhas
  · exact .inl (registration_closes h hpc hreg)
  · have hhas : (pc'.elim caller.main fun pc' => Main.closing fd pc' caller).current = _ := hhas
    rw [hcurrent] at hhas
    cases hhas
  · exact .inr (.inr (hpending ▸ hhas))

theorem Disturbed.main_step (hs : Disturbed reply s) {r : MainSys}
    (h : MainCase reply idle s r s') (hfresh : FreshNumber s (.main r)) (hsingle : Single s') :
    Disturbed reply s' := by
  -- most steps leave the sessions alone
  have hgoto : ∀ {m m' : Main} {running : Bool} {timers : TimerHeap Q Fd ℕ}, s.main = m →
      Single { s with running, timers, main := m' } → (∀ ev ∈ m'.pending, ev ∈ m.pending) →
      (∀ fd i, m'.current = some (fd, i) → m.Has fd i) →
      Disturbed reply { s with running, timers, main := m' } := by
    intro m m' running timers hm hsingle hpending hcurrent
    refine hs.goto hm hsingle fun fd i hi => ?_
    rcases hi with hi | hi
    · exact hcurrent fd i hi
    · exact .inr (hpending _ hi)
  have hquiet : ∀ {m m' : Main} {running : Bool} {timers : TimerHeap Q Fd ℕ}, s.main = m →
      Single { s with running, timers, main := m' } → (∀ ev ∈ m'.pending, ev ∈ m.pending) →
      m'.current = none → Disturbed reply { s with running, timers, main := m' } :=
    fun hm hsingle hpending hcurrent => hgoto hm hsingle hpending (by simp [hcurrent])
  cases h with
  | loop hm =>
    generalize hm' : (if s.running = true then Main.wait else Main.stop) = m' at hsingle ⊢
    obtain ⟨hpending, hcurrent⟩ : m'.pending = [] ∧ m'.current = none := by
      rw [← hm']
      split_ifs <;> exact ⟨rfl, rfl⟩
    exact hquiet hm hsingle (by simp [hpending]) hcurrent
  | wait _ hev _ => exact hs.wait hev hsingle
  | interrupted hm => exact hquiet hm hsingle (fun _ hev => hev) rfl
  | failed hm => exact hquiet hm hsingle (fun _ hev => hev) rfl
  | batchEnd hm => exact hquiet hm hsingle (fun _ hev => hev) rfl
  | listen hm => exact hquiet hm hsingle (fun _ hev => List.mem_cons_of_mem _ hev) rfl
  | hangup hm => exact hquiet hm hsingle (fun _ hev => List.mem_cons_of_mem _ hev) rfl
  | ready hm =>
    refine hgoto hm hsingle (fun _ hev => List.mem_cons_of_mem _ hev) ?_
    rintro _ _ ⟨⟩
    exact .inr List.mem_cons_self
  | accepted hm hr _ =>
    subst hr
    exact hs.accepted hm hfresh hsingle
  | refused hm => exact hquiet hm hsingle (fun _ hev => hev) rfl
  | register hm => exact hs.register hm hsingle
  | add hm => exact hs.add hm hsingle
  | gone hm _ => exact hquiet hm hsingle (fun _ hev => hev) rfl
  | dispatch hm _ => exact hgoto hm hsingle (fun _ hev => hev) fun _ _ hi => .inl hi
  | begin hm _ _ => exact hs.begin hm hsingle
  | discard hm _ => exact hquiet hm hsingle (fun _ hev => hev) rfl
  | enqueue hm => exact hs.enqueue hm hsingle
  | close hm hperform => exact hs.close hm hperform hsingle
  | idle hm => exact hquiet hm hsingle (fun _ hev => hev) rfl
  | idleEnd hm => exact hquiet hm hsingle (fun _ hev => hev) rfl
  | idleNext hm _ => exact hquiet hm hsingle (fun _ hev => hev) rfl
  | stop hm => exact hquiet hm hsingle (fun _ hev => hev) rfl
  | join hm _ _ => exact hquiet hm hsingle (fun _ hev => hev) rfl
  | shutdown _ _ => exact hs.shutdown hsingle

/-! ### Steps of the tasks -/

/-- What is read and written by a task stays in order. -/
theorem ordered_step {t : Task} {r : Sys} {s₁ : HttpServer Q} {pc' : Option (Pc ConnId)}
    (h : s.perform idle t.fd (t.pc.code reply) r = some (s₁, pc'))
    (howner : ∀ c, s.owner t.fd = some c → c = t.owner)
    (hgathered : ∀ c iov, t.pc = .writev c iov → ∃ done,
      Ordered reply { s.session t.owner with
        written := (s.session t.owner).written ++ iov.flatten } done)
    (hordered : ∀ c, ∃ done, Ordered reply (s.session c) done) (c : ConnId) :
    ∃ done, Ordered reply (s₁.session c) done := by
  obtain ⟨done, hdone⟩ := hordered c
  obtain ⟨fd, owner, pc⟩ := t
  dsimp only at h howner hgathered
  cases handler_cases h with
  | @readData _ bytes _ =>
    refine ⟨done, ?_⟩
    by_cases hc : s.owner fd = some c
    · exact hdone.read (updateRecord_self hc s.received (· ++ bytes)) rfl
    · exact hdone.congr (updateRecord_ne hc s.received (· ++ bytes)) rfl
  | @wrote c' iov n _ _ =>
    by_cases hc : s.owner fd = some c
    · obtain rfl := howner c hc
      obtain ⟨done', hdone'⟩ := hgathered c' iov rfl
      exact ⟨done', hdone'.wrote rfl (updateRecord_self hc s.written (· ++ iov.flatten.take n))⟩
    · exact ⟨done, hdone.congr rfl (updateRecord_ne hc s.written (· ++ iov.flatten.take n))⟩
  | _ => exact ⟨done, hdone.congr rfl rfl⟩

/-- The handlers gather what is due, and go on as long as the connection is open. -/
theorem Single.survives (hs : Single s) {t : Task} (ht : t ∈ s.queue ++ s.tasks)
    (hactive : t.pc.active = true) {r : Sys} {s₁ : HttpServer Q} {pc' : Option (Pc ConnId)}
    (h : s.perform idle t.fd (t.pc.code reply) r = some (s₁, pc'))
    (hreply : ∀ raw, (reply raw).bytes ≠ [])
    (hsurvives : Survives reply (s.session t.owner) t.pc) :
    (∀ q ∈ pc', Survives reply (s₁.session t.owner) q) ∧
      ∀ i, s₁.connections.lookup t.fd = some t.owner → s₁.registration t.fd = some (some i) →
        Awaits reply (s₁.session t.owner) i := by
  have howned := hs.owned.task t ht
  have hattached := hs.attached t ht hactive
  have howner : (s.conns t.owner).closed = false → s.owner t.fd = some t.owner := by
    intro hopen
    cases hfile : s.owner t.fd with
    | none =>
      rw [hs.owned.shut _ _ hattached hfile] at hopen
      cases hopen
    | some c => rw [← hattached, hs.owned.file _ _ hfile]
  constructor
  · intro q hq
    have hruns : (s.conns t.owner).closed = false → t.pc.closes = false →
        r ≠ .read .error ∧ r ≠ .write .error →
        Session.Runs reply (fun _ => True) (s₁.session t.owner) q := by
      intro hopen hpc herror
      have hpast : t.pc.pastErase = false := by
        rw [← Bool.not_eq_true, Pc.closes_iff, not_or] at hpc
        simpa using hpc.2
      exact session_goesOn hactive hpast (howner hopen) howned.conn hopen h hreply
        (fun _ => trivial) herror (hsurvives.runs hopen hpc) q hq
    constructor
    · rintro c iov rfl
      -- only an open connection is gathered from
      have hgather : t.pc = .gather c ∧ (s.conns c).closed = false ∧ r = .done := by
        have hcase := handler_cases h
        generalize t.pc = pc at hcase
        cases hcase <;> cases hq
        exact ⟨rfl, ‹_›, rfl⟩
      obtain ⟨hpc, hopen, rfl⟩ := hgather
      obtain rfl := howned.conn c (by rw [hpc]; rfl)
      refine (hruns hopen (by rw [hpc]; rfl) (by simp)).survives.gathered _ iov rfl
    · intro hopen hq'
      have hpc : t.pc.closes = false := by
        by_contra hpc
        rw [Bool.not_eq_false, Pc.closes_iff] at hpc
        have hpast := (perform_close hpc h).1 q hq
        rw [Pc.closes_iff.2 (.inr hpast)] at hq'
        cases hq'
      have hopen' : (s.conns t.owner).closed = false := by
        by_contra hclosed
        rw [Bool.not_eq_false] at hclosed
        have hopen : (s₁.conns t.owner).closed = false := hopen
        rw [perform_closed h hclosed] at hopen
        cases hopen
      refine hruns hopen' hpc ⟨?_, ?_⟩ <;> rintro rfl
      all_goals
        have hcase := handler_cases h
        generalize t.pc = pc at hcase
        cases hcase
        cases hq
        cases hq'
  · intro i hc hi
    have hnot := hs.not_armed ht hactive
    have hopen := hs.opened _ _ ((perform_effect h).table _ _ hc)
    have hpc : t.pc.closes = false := by
      by_contra hpc
      rw [Bool.not_eq_false] at hpc
      rw [armed_of_registration (registration_closes h hpc hi)] at hnot
      cases hnot
    exact session_arms hnot howned.conn hopen h (hsurvives.runs hopen hpc) hi

theorem Disturbed.task_step (hs : Disturbed reply s) (hreply : ∀ raw, (reply raw).bytes ≠ [])
    {i : ℕ} {r : Sys} (h : s.step reply idle (.task i r) = some s') (hsingle : Single s') :
    Disturbed reply s' := by
  obtain ⟨l₁, t, l₂, s₁, pc, htasks, hi, hperform, rfl⟩ := taskStep_cases h
  have hperm := perm_thread_cons s.queue htasks
  have ht : t ∈ s.queue ++ s.tasks := hperm.mem_iff.2 List.mem_cons_self
  have hqueue : s₁.queue = s.queue := by rw [perform_eq hperform]
  have hmain : s₁.main = s.main := by rw [perform_eq hperform]
  have hnext : s₁.next = s.next := by rw [perform_eq hperform]
  have hmem : ∀ t' ∈ s₁.queue ++ (l₁ ++ (pc.map fun pc => { t with pc }).toList ++ l₂),
      (∃ q ∈ pc, t' = { t with pc := q }) ∨ t' ∈ s.queue ++ (l₁ ++ l₂) :=
    fun t' ht' => mem_taskStep (hqueue ▸ ht')
  have hothers : ∀ t' ∈ s.queue ++ (l₁ ++ l₂), t' ∈ s.queue ++ s.tasks := fun t' ht' =>
    hperm.mem_iff.2 (List.mem_cons_of_mem t ht')
  cases hactive : t.pc.active with
  | false =>
    -- the task has given its token back
    obtain ⟨rfl, rfl⟩ := perform_inactive hperform hactive
    refine hs.move hsingle rfl (fun _ => .inl rfl) (fun t' ht' _ => ?_) fun _ _ _ hc hi => ⟨hc, hi⟩
    obtain ⟨q, hq, -⟩ | ht' := hmem t' ht'
    · cases hq
    · exact hothers t' ht'
  | true =>
    have hattached := hs.single.attached t ht hactive
    have howned := hs.single.owned.task t ht
    have hsurvives := hs.tasks t ht hactive
    have howner : ∀ c, s.owner t.fd = some c → c = t.owner := fun c hc =>
      Option.some.inj ((hs.single.owned.file _ _ hc).symm.trans hattached)
    have hother : ∀ {c}, c ≠ t.owner → s₁.session c = s.session c := fun hc =>
      session_other hperform (fun hconn => hc (howned.conn _ hconn)) fun hfile =>
        hc (howner _ hfile)
    obtain ⟨hgoes, harms⟩ := hs.single.survives ht hactive hperform hreply hsurvives
    have hordered := ordered_step hperform howner hsurvives.gathered hs.ordered
    refine ⟨hsingle, fun c hc => ?_, hordered, fun t' ht' hactive' => ?_, fun fd c j hc hj => ?_⟩
    · have hle : s.next ≤ c := hnext ▸ hc
      have hsame := hother (c := c) fun heq => Nat.not_lt.2 hle (heq ▸ howned.made)
      obtain ⟨hreceived, hwritten, hended⟩ := hs.unmade c hle
      exact ⟨(congrArg Session.received hsame).trans hreceived,
        (congrArg Session.written hsame).trans hwritten,
        (congrArg Session.ended hsame).trans hended⟩
    · obtain ⟨q, hq, rfl⟩ | ht' := hmem t' ht'
      · exact hgoes q hq
      · have hfd : t'.fd ≠ t.fd := fun hfd => by
          rw [hs.single.only_worker hperm hactive ht' hfd] at hactive'
          cases hactive'
        have hne : t'.owner ≠ t.owner := fun heq =>
          hfd (hs.single.owned.inj _ _ _
            (heq ▸ hs.single.attached t' (hothers t' ht') hactive') hattached)
        exact (hother hne).symm ▸ hs.tasks t' (hothers t' ht') hactive'
    · have hc' := (perform_effect hperform).table fd c hc
      by_cases hfd : fd = t.fd
      · subst hfd
        have hcc : c = t.owner := Option.some.inj ((hs.single.latest hc').symm.trans hattached)
        subst hcc
        refine harms j hc (hj.resolve_right fun hhas => ?_)
        exact hs.single.not_has ht hactive (hmain ▸ hhas)
      · have hne : c ≠ t.owner := fun heq =>
          hfd (hs.single.owned.inj _ _ _ (hs.single.latest hc') (heq ▸ hattached))
        refine (hother hne).symm ▸ hs.waits fd c j hc' ?_
        exact hj.imp (fun hreg => (perform_registration_ne hperform hfd).symm.trans hreg)
          fun hhas => hmain ▸ hhas

/-! ### Runs -/

theorem Disturbed.init : Disturbed reply (lts (Q := Q) reply idle).init where
  single := .init
  unmade _ _ := ⟨rfl, rfl, rfl⟩
  ordered _ := ⟨[], ⟨[], .nil []⟩, List.nil_prefix, fun _ hraw => absurd hraw List.not_mem_nil⟩
  tasks := by rintro t ⟨⟩
  waits fd c i hc := by
    change (∅ : Finmap fun _ : Fd => ConnId).lookup fd = some c at hc
    rw [Finmap.lookup_empty] at hc
    cases hc

theorem Disturbed.step (hs : Disturbed reply s) (hreply : ∀ raw, (reply raw).bytes ≠ [])
    {l : Label} (hfresh : FreshNumber s l) (h : s.step reply idle l = some s') :
    Disturbed reply s' := by
  have hsingle : Single s' := hs.single.step (hs.single.freeNumber hfresh) h
  cases l with
  | tick d =>
    cases h
    exact hs.goto rfl hsingle fun _ _ hi => hi
  | requestStop =>
    cases h
    exact hs.goto rfl hsingle fun _ _ hi => hi
  | main r => exact hs.main_step (mainStep_cases h) hfresh hsingle
  | start =>
    obtain ⟨t, queue, hqueue, rfl⟩ := start_cases h
    have hperm := perm_start hqueue s.tasks
    exact hs.move hsingle rfl (fun _ => .inl rfl) (fun t' ht' _ => hperm.mem_iff.1 ht')
      fun _ _ _ hc hi => ⟨hc, hi⟩
  | task i r => exact hs.task_step hreply h hsingle

variable {site : Site Id}

/-- **Whatever disturbs a client, what it gets is right.**  In every run in which `accept` returns
no number that was used before, with any hang-ups, socket errors, timeouts, ends of streams and
`stop` at any point: the bytes written to a client are the first bytes of the responses to what it
has sent, in order, up to the first that says `Connection: close`. -/
theorem written_in_order (h : (lts site.reply idle).ReachableIf FreshNumber s) (c : ConnId)
    {stream : Bytes} (hstream : s.received c <+: stream) :
    ∃ n, ∀ m, n ≤ m → s.written c <+: (site.responses m stream).flatten := by
  have hs : Disturbed site.reply s := h.invariant .init fun _ _ _ _ hs hfresh hstep =>
    hs.step site.reply_bytes_ne_nil hfresh hstep
  obtain ⟨done, hdone⟩ := hs.ordered c
  refine ⟨done.length, fun m hm => ?_⟩
  rw [Site.flatten_responses]
  exact hdone.written_prefix hstream hm

/-- The idle timer closes the connection while a worker is about to write, and the socket still
takes some bytes. -/
def expiredRun : List Label :=
  answeredRun ++ [.main .done, .main .done, .main .done, .main .done,
    .main (.events [.client 5 .output]), .main .done, .main .done, .main .done, .main .done,
    .start, .task 0 .done, .task 0 .done, .tick 100, .main .done, .main .done, .main .done,
    .main .done, .main .done, .task 0 (.write (.wrote 12)), .task 0 .done, .main .done,
    .main .done]

theorem written_in_order_expired :
    ∃ s, sample.ReachableIf FreshNumber s ∧ s.files 5 = none ∧
      s.written 0 = .ofString "HTTP/1.1 400" ∧ ∃ n, ∀ m, n ≤ m →
        s.written 0 <+: (Site.empty.responses m (s.received 0)).flatten := by
  have hfresh : sample.Allowed FreshNumber sample.init expiredRun := by decide +kernel
  obtain ⟨s, hrun, hfile, hwritten⟩ : ∃ s ∈ sample.run sample.init expiredRun,
      s.files 5 = none ∧ s.written 0 = .ofString "HTTP/1.1 400" := by decide +kernel
  have h := LTS.ReachableIf.run .init hfresh hrun
  exact ⟨s, h, hfile, hwritten, written_in_order h 0 List.prefix_rfl⟩

end Step

end HttpServer

end MiniServer
