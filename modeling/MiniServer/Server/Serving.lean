import MiniServer.Server.Session

/-!
# The session of a connection in the server

`At s fd p` says where the session on the descriptor `fd` is.  While nothing disturbs it
(`Undisturbed`), every step of every thread keeps what is known of the session at its place
(`Serving`): the steps of a task on `fd` by the lemmas of `MiniServer.Handler.Session`, all others
because the descriptor has only one token.
-/

namespace MiniServer

/-- The main thread is about to close this descriptor as idle, or every descriptor. -/
def Main.closesNext (fd : Fd) : Main → Bool
  | .expired (fd' :: _) => fd' = fd
  | .shutdown => true
  | _ => false

/-- The descriptor that the main thread is working on, and for what. -/
def Main.current : Main → Option (Fd × Interest)
  | .register fd _ _ => some (fd, .input)
  | .add fd _ => some (fd, .input)
  | .dispatch fd interest _ => some (fd, interest)
  | .begin fd _ interest _ => some (fd, interest)
  | .enqueue fd _ interest _ => some (fd, interest)
  | _ => none

/-- The main thread has the token of a descriptor. -/
def Main.Has (m : Main) (fd : Fd) (interest : Interest) : Prop :=
  m.current = some (fd, interest) ∨ .client fd interest.kind ∈ m.pending

/-- The main thread that has a token of a descriptor is counted for it. -/
theorem Main.Has.tokens {m : Main} {fd : Fd} {i : Interest} (h : m.Has fd i) :
    1 ≤ m.tokens fd := by
  rcases h with hcurrent | hpending
  · unfold Main.current at hcurrent
    split at hcurrent <;> cases hcurrent <;>
      simp [Main.tokens, Main.accepting, Main.handling]
  · have hpos : 0 < m.pending.countP (Event.isFor fd) :=
      List.countP_pos_iff.2 ⟨_, hpending, by simp [Event.isFor]⟩
    unfold Main.tokens
    omega

namespace HttpServer

variable {Q : Type}

/-- A step that does not disturb the session on `fd`: no task works on a number that `accept`
returns, and no hang-up, socket error, timeout or stop closes the descriptor; `eof` says of which
connection objects `read` may return 0. -/
def Undisturbed (eof : Connection → Prop) (fd : Fd) (s : HttpServer Q) : Label → Prop
  | .main (.accepted fd' _) => ∀ t ∈ s.queue ++ s.tasks, t.fd = fd' → t.pc.active = false
  | .main (.events evs) => .client fd .hangup ∉ evs
  | .main .done => s.main.closesNext fd = false
  | .task i (.read .eof) => ∀ t ∈ s.tasks[i]?, t.fd = fd → eof (s.conns t.owner)
  | .task i (.read .error) => ∀ t ∈ s.tasks[i]?, t.fd ≠ fd
  | .task i (.write .error) => ∀ t ∈ s.tasks[i]?, t.fd ≠ fd
  | _ => True

instance (eof : Connection → Prop) [DecidablePred eof] (fd : Fd) (s : HttpServer Q) :
    (l : Label) → Decidable (Undisturbed eof fd s l)
  | .main (.accepted fd' _) =>
    inferInstanceAs (Decidable (∀ t ∈ s.queue ++ s.tasks, t.fd = fd' → t.pc.active = false))
  | .main (.events evs) => inferInstanceAs (Decidable (.client fd .hangup ∉ evs))
  | .main .done => inferInstanceAs (Decidable (s.main.closesNext fd = false))
  | .task i (.read .eof) =>
    inferInstanceAs (Decidable (∀ t ∈ s.tasks[i]?, t.fd = fd → eof (s.conns t.owner)))
  | .task i (.read .error) | .task i (.write .error) =>
    inferInstanceAs (Decidable (∀ t ∈ s.tasks[i]?, t.fd ≠ fd))
  | .main .interrupted | .main .failed | .main .refused | .tick _ | .requestStop | .start
  | .task _ .done | .task _ (.read (.data _)) | .task _ (.read .again) | .task _ (.write (.wrote _))
  | .task _ (.write .again) => inferInstanceAs (Decidable True)

theorem Undisturbed.freeNumber {eof : Connection → Prop} {fd : Fd} {s : HttpServer Q} {l : Label}
    (h : Undisturbed eof fd s l) : FreeNumber s l := by
  unfold FreeNumber
  split
  · exact h
  · trivial

/-- The places where the session on `fd` is. -/
inductive At (s : HttpServer Q) (fd : Fd) : Place ConnId → Prop
  | gone : s.connections.lookup fd = none → (∀ ip rest, s.main ≠ .register fd ip rest) →
      At s fd .gone
  | armed {i : Interest} {c : ConnId} : s.connections.lookup fd = some c →
      s.registration fd = some (some i) → At s fd (.waiting i)
  | main {i : Interest} {c : ConnId} : s.connections.lookup fd = some c → s.main.Has fd i →
      At s fd (.waiting i)
  | task {t : Task} {c : ConnId} : s.connections.lookup fd = some c → t ∈ s.queue ++ s.tasks →
      t.fd = fd → t.pc.active = true → At s fd (.running t.pc)

variable (reply : Bytes → Answer) (eof : Connection → Prop)

/-- What is known of the session on `fd`. -/
structure Serving (fd : Fd) (s : HttpServer Q) : Prop where
  single : Single s
  unmade : ∀ c, s.next ≤ c → s.received c = [] ∧ s.written c = [] ∧ s.ended c = false
  noHangup : .client fd .hangup ∉ s.main.pending
  notClosing : ∀ pc caller, s.main ≠ .closing fd pc caller
  registered : ∀ t ∈ s.queue ++ s.tasks, t.fd = fd → t.pc.active = true →
    t.pc.pastErase = false → s.connections.lookup fd = some t.owner
  fits : ∀ c, s.latest fd = some c → ∀ p, At s fd p → Session.Fits reply eof (s.session c) p

variable {reply} {eof}

/-- An active task and another token contradict each other. -/
theorem Single.not_has {s : HttpServer Q} (hs : Single s) {t : Task} (ht : t ∈ s.queue ++ s.tasks)
    (hactive : t.pc.active = true) {i : Interest} (h : s.main.Has t.fd i) : False := by
  have hnone := hs.no_worker t.fd h.tokens
  have hone := worker_le ht hactive
  omega

/-- A session that has begun is somewhere. -/
theorem Serving.exists_at {s : HttpServer Q} {fd : Fd} (hs : Serving reply eof fd s)
    (hm : s.connections.lookup fd = none → ∀ ip rest, s.main ≠ .register fd ip rest) :
    ∃ p, At s fd p := by
  cases hc : s.connections.lookup fd with
  | none => exact ⟨_, .gone hc (hm hc)⟩
  | some c =>
    by_cases haccept : s.main.accepting = some fd
    · unfold Main.accepting at haccept
      split at haccept <;> cases haccept
      · exact ⟨.waiting .input, .main hc (.inl (by simp [Main.current, *]))⟩
      · exact ⟨.waiting .input, .main hc (.inl (by simp [Main.current, *]))⟩
    · cases hs.single.holder hc haccept with
      | armed harmed =>
        obtain ⟨i, hi⟩ := Option.isSome_iff_exists.1 harmed
        obtain ⟨_, hreg, rfl⟩ := Option.bind_eq_some_iff.1 hi
        exact ⟨_, .armed hc hreg⟩
      | pending kind hev =>
        cases kind with
        | hangup => exact absurd hev hs.noHangup
        | input => exact ⟨.waiting .input, .main hc (.inr hev)⟩
        | output => exact ⟨.waiting .output, .main hc (.inr hev)⟩
      | handling hhandling =>
        unfold Main.handling at hhandling
        split at hhandling <;> cases hhandling
        · rename_i i _ _
          exact ⟨.waiting i, .main hc (.inl (by simp [Main.current, *]))⟩
        · rename_i i _ _
          exact ⟨.waiting i, .main hc (.inl (by simp [Main.current, *]))⟩
        · rename_i i _ _
          exact ⟨.waiting i, .main hc (.inl (by simp [Main.current, *]))⟩
        · exact absurd ‹_› (hs.notClosing _ _)
      | task t ht hfd _ hactive => exact ⟨_, .task hc ht hfd hactive⟩

/-! ### Steps of the main thread -/

/-- A step that moves the session at most from one place to another. -/
theorem Serving.move {s s' : HttpServer Q} {fd : Fd} (hs : Serving reply eof fd s)
    (hsingle : Single s')
    (hunmade : ∀ c, s'.next ≤ c → s.next ≤ c ∧ s'.received c = s.received c ∧
      s'.written c = s.written c ∧ s'.ended c = s.ended c)
    (hhangup : .client fd .hangup ∉ s'.main.pending)
    (hclosing : ∀ pc caller, s'.main ≠ .closing fd pc caller)
    (hregistered : ∀ t ∈ s'.queue ++ s'.tasks, t.fd = fd → t.pc.active = true →
      t.pc.pastErase = false → s'.connections.lookup fd = some t.owner)
    (hlatest : s'.latest fd = s.latest fd)
    (hat : ∀ p, At s' fd p → ∃ p₀, At s fd p₀ ∧ ∀ c, s.latest fd = some c →
      Session.Fits reply eof (s.session c) p₀ → Session.Fits reply eof (s'.session c) p) :
    Serving reply eof fd s' where
  single := hsingle
  unmade c hc := by
    obtain ⟨hle, hreceived, hwritten, hended⟩ := hunmade c hc
    rw [hreceived, hwritten, hended]
    exact hs.unmade c hle
  noHangup := hhangup
  notClosing := hclosing
  registered := hregistered
  fits c hc p hp := by
    obtain ⟨p₀, hp₀, hfits⟩ := hat p hp
    rw [hlatest] at hc
    exact hfits c hc (hs.fits c hc p₀ hp₀)

/-- A step that changes the program counter of the main thread only, and takes no token. -/
theorem Serving.goto {s : HttpServer Q} {fd : Fd} (hs : Serving reply eof fd s) {m m' : Main}
    {now : ℕ} {running : Bool} {timers : TimerHeap Q Fd ℕ} (hm : s.main = m)
    (hsingle : Single { s with now, running, timers, main := m' })
    (hhangup : .client fd .hangup ∉ m'.pending)
    (hclosing : ∀ pc caller, m' ≠ .closing fd pc caller)
    (hregister : ∀ ip rest, m = .register fd ip rest → m' = m)
    (hhas : ∀ i, m'.Has fd i → m.Has fd i) :
    Serving reply eof fd { s with now, running, timers, main := m' } := by
  subst hm
  refine hs.move hsingle (fun c hc => ⟨hc, rfl, rfl, rfl⟩) hhangup hclosing hs.registered rfl
    fun p hp => ⟨p, ?_, fun _ _ h => h⟩
  cases hp with
  | gone hc hm =>
    refine .gone hc fun ip rest hm' => hm ip rest ?_
    rw [← hm']
    exact hregister ip rest hm'
  | armed hc hreg => exact .armed hc hreg
  | main hc hmain => exact .main hc (hhas _ hmain)
  | task hc ht hfd hactive => exact .task hc ht hfd hactive

/-- A delivered event comes from a descriptor that was armed for it. -/
theorem deliverAll_kind {s s' : HttpServer Q} {evs : List Event} (h : s.deliverAll evs = some s')
    (fd : Fd) :
    (∀ i, s'.registration fd = some (some i) → s.registration fd = some (some i)) ∧
      ∀ kind, .client fd kind ∈ evs →
        ∃ i, s.registration fd = some (some i) ∧ kind.possible i = true := by
  induction evs generalizing s with
  | nil =>
    cases h
    exact ⟨fun _ h => h, fun _ hmem => absurd hmem List.not_mem_nil⟩
  | cons ev evs ih =>
    obtain ⟨s₁, hev, h⟩ := Option.bind_eq_some_iff.1 h
    obtain ⟨hreg, hkind⟩ := ih h
    have hhead : (∀ i, s₁.registration fd = some (some i) → s.registration fd = some (some i)) ∧
        ∀ kind, ev = .client fd kind →
          ∃ i, s.registration fd = some (some i) ∧ kind.possible i = true := by
      unfold deliver at hev
      split at hev
      · cases hev
        exact ⟨fun _ h => h, by rintro _ ⟨⟩⟩
      · rename_i fd' kind
        split at hev
        · rename_i i harmed
          split_ifs at hev with hpossible
          cases hev
          refine ⟨fun j hj => ?_, ?_⟩
          · rw [registration_updateFile] at hj
            by_cases hfd : fd = fd'
            · subst hfd
              rw [Function.update_self] at hj
              cases hf : s.files fd <;> rw [hf] at hj <;> cases hj
            · rwa [Function.update_of_ne hfd] at hj
          · rintro _ ⟨⟩
            exact ⟨i, harmed, hpossible⟩
        · cases hev
    refine ⟨fun i hi => hhead.1 i (hreg i hi), fun kind hmem => ?_⟩
    rcases List.mem_cons.1 hmem with heq | hmem
    · exact hhead.2 kind heq.symm
    · obtain ⟨i, hi, hpossible⟩ := hkind kind hmem
      exact ⟨i, hhead.1 i hi, hpossible⟩

theorem Serving.wait {s s₁ : HttpServer Q} {fd : Fd} (hs : Serving reply eof fd s)
    {evs : List Event} (hm : s.main = .wait) (hev : s.deliverAll evs = some s₁)
    (hhangup : .client fd .hangup ∉ evs) (hsingle : Single { s₁ with main := .events evs }) :
    Serving reply eof fd { s₁ with main := .events evs } := by
  have hkind := deliverAll_kind hev fd
  obtain ⟨files, rfl⟩ := deliverAll_eq hev
  refine hs.move hsingle (fun c hc => ⟨hc, rfl, rfl, rfl⟩) hhangup (by simp) hs.registered rfl
    fun p hp => ⟨p, ?_, fun _ _ h => h⟩
  cases hp with
  | gone hc _ => exact .gone hc (by simp [hm])
  | armed hc hreg => exact .armed hc (hkind.1 _ hreg)
  | @main i c hc hmain =>
    -- the token comes from the registration, and for the same event
    obtain ⟨j, hreg, hpossible⟩ := hkind.2 i.kind (hmain.resolve_left (by rintro ⟨⟩))
    have hij : j = i := by cases i <;> simpa [Interest.kind, Kind.possible] using hpossible
    exact .armed hc (hij ▸ hreg)
  | task hc ht hfd hactive => exact .task hc ht hfd hactive

theorem Serving.accepted {s : HttpServer Q} {fd : Fd} (hs : Serving reply eof fd s) {fd' : Fd}
    {peerIp : Bytes} {rest : List Event} (hm : s.main = .accept rest)
    (hfree : s.files fd' = none)
    (hsingle : Single { s with
      files := Function.update s.files fd' (some { owner := s.next })
      latest := Function.update s.latest fd' (some s.next)
      main := .register fd' peerIp rest }) :
    Serving reply eof fd { s with
      files := Function.update s.files fd' (some { owner := s.next })
      latest := Function.update s.latest fd' (some s.next)
      main := .register fd' peerIp rest } := by
  have hpending : .client fd .hangup ∉ rest := by
    have hold := hs.noHangup
    rwa [hm] at hold
  by_cases hfd : fd = fd'
  · -- the session begins, and is nowhere yet
    subst hfd
    have hnone : ∀ {c}, s.connections.lookup fd ≠ some c := by
      intro c hc
      have howner := hs.single.owned.table fd c hc
      rw [owner, hfree] at howner
      cases howner
    refine ⟨hsingle, hs.unmade, hpending, by simp, hs.registered, fun c _ p hp => ?_⟩
    cases hp with
    | gone _ hm' => exact absurd rfl (hm' peerIp rest)
    | armed hc _ => exact absurd hc hnone
    | main hc _ => exact absurd hc hnone
    | task hc _ _ _ => exact absurd hc hnone
  · refine hs.move hsingle (fun c hc => ⟨hc, rfl, rfl, rfl⟩) hpending (by simp) hs.registered
      (Function.update_of_ne hfd _ _) fun p hp => ⟨p, ?_, fun _ _ h => h⟩
    cases hp with
    | gone hc _ => exact .gone hc (by simp [hm])
    | armed hc hreg =>
      refine .armed hc ?_
      simpa only [registration, Function.update_of_ne hfd] using hreg
    | main hc hmain =>
      refine .main hc (.inr ?_)
      rw [hm]
      refine hmain.resolve_left ?_
      rintro ⟨⟩
      exact hfd rfl
    | task hc ht htfd hactive => exact .task hc ht htfd hactive

theorem Serving.add {s : HttpServer Q} {fd : Fd} (hs : Serving reply eof fd s) {fd' : Fd}
    {rest : List Event} (hm : s.main = .add fd' rest)
    (hsingle : Single { s.epollAdd fd' .input with main := .accept rest }) :
    Serving reply eof fd { s.epollAdd fd' .input with main := .accept rest } := by
  have hpending : .client fd .hangup ∉ rest := by
    have hold := hs.noHangup
    rwa [hm] at hold
  refine hs.move hsingle (fun c hc => ⟨hc, rfl, rfl, rfl⟩) hpending (by simp) hs.registered rfl
    fun p hp => ⟨p, ?_, fun _ _ h => h⟩
  cases hp with
  | gone hc _ => exact .gone hc (by simp [hm])
  | @armed i c hc hreg =>
    have hreg : (s.epollAdd fd' .input).registration fd = some (some i) := hreg
    rw [epollAdd, registration_updateFile] at hreg
    by_cases hfd : fd = fd'
    · -- the new registration is for input
      subst hfd
      have hnone := hs.single.fresh fd (by rw [hm]; rfl)
      rw [Function.update_self] at hreg
      cases hf : s.files fd with
      | none => rw [hf] at hreg; cases hreg
      | some file =>
        rw [registration, hf, Option.bind_some] at hnone
        rw [hf, Option.bind_some, hnone] at hreg
        cases hreg
        exact .main hc (.inl (by rw [hm]; rfl))
    · rw [Function.update_of_ne hfd] at hreg
      exact .armed hc hreg
  | main hc hmain =>
    refine .main hc (.inr ?_)
    rw [hm]
    exact hmain.resolve_left (by rintro ⟨⟩)
  | task hc ht hfd hactive => exact .task hc ht hfd hactive

theorem Serving.begin {s : HttpServer Q} {fd : Fd} (hs : Serving reply eof fd s) {fd' : Fd}
    {c' : ConnId} {i : Interest} {rest : List Event} (hm : s.main = .begin fd' c' i rest)
    (hsingle : Single { s.setConn c' ((s.conns c').setProcessing true) with
      main := .enqueue fd' c' i rest }) :
    Serving reply eof fd { s.setConn c' ((s.conns c').setProcessing true) with
      main := .enqueue fd' c' i rest } := by
  have hpending : .client fd .hangup ∉ rest := by
    have hold := hs.noHangup
    rwa [hm] at hold
  have hbegun := hs.single.begun fd' c' i rest (.inl hm)
  have hhas : ∀ {j}, Main.Has (.enqueue fd' c' i rest) fd j → s.main.Has fd j := by
    rw [hm]
    exact fun h => h
  refine hs.move hsingle (fun c hc => ⟨hc, rfl, rfl, rfl⟩) hpending (by simp) hs.registered rfl
    fun p hp => ⟨p, ?_, fun c hc hfits => ?_⟩
  · cases hp with
    | gone hc _ => exact .gone hc (by simp [hm])
    | armed hc hreg => exact .armed hc hreg
    | main hc hmain => exact .main hc (hhas hmain)
    | task hc ht hfd hactive => exact .task hc ht hfd hactive
  · show Session.Fits reply eof ((s.setConn c' _).session c) p
    by_cases hcc : c = c'
    · -- only `processing` changes, and no task has the session
      subst hcc
      have hfd : fd = fd' := hs.single.owned.inj fd fd' c hc (hs.single.latest hbegun)
      subst hfd
      rw [session_setConn]
      cases hp with
      | gone _ _ => exact Session.Finished.withConn hfits _
      | armed _ _ => exact Session.Awaits.withFlags hfits
      | main _ _ => exact Session.Awaits.withFlags hfits
      | task _ ht htfd hactive =>
        subst htfd
        exact (hs.single.not_has ht hactive (i := i) (.inl (by rw [hm]; rfl))).elim
    · simpa only [session, setConn, Function.update_of_ne hcc] using hfits

theorem Serving.enqueue {s : HttpServer Q} {fd : Fd} (hs : Serving reply eof fd s) {fd' : Fd}
    {c' : ConnId} {i : Interest} {rest : List Event} (hm : s.main = .enqueue fd' c' i rest)
    (hsingle : Single
      { s with queue := s.queue ++ [⟨fd', c', beginPc i⟩], main := .events rest }) :
    Serving reply eof fd
      { s with queue := s.queue ++ [⟨fd', c', beginPc i⟩], main := .events rest } := by
  have hpending : .client fd .hangup ∉ rest := by
    have hold := hs.noHangup
    rwa [hm] at hold
  have hbegun := hs.single.begun fd' c' i rest (.inr hm)
  have hmem : ∀ {t : Task}, t ∈ s.queue ++ [(⟨fd', c', beginPc i⟩ : Task)] ++ s.tasks →
      t = ⟨fd', c', beginPc i⟩ ∨ t ∈ s.queue ++ s.tasks := by
    intro t ht
    rcases List.mem_append.1 ht with ht | ht
    · rcases List.mem_append.1 ht with ht | ht
      · exact .inr (List.mem_append_left _ ht)
      · exact .inl (List.mem_singleton.1 ht)
    · exact .inr (List.mem_append_right _ ht)
  refine hs.move hsingle (fun c hc => ⟨hc, rfl, rfl, rfl⟩) hpending (by simp) ?_ rfl
    fun p hp => ?_
  · intro t ht hfd hactive hpast
    rcases hmem ht with rfl | ht
    · exact hfd ▸ hbegun
    · exact hs.registered t ht hfd hactive hpast
  · cases hp with
    | gone hc _ => exact ⟨_, .gone hc (by simp [hm]), fun _ _ h => h⟩
    | armed hc hreg => exact ⟨_, .armed hc hreg, fun _ _ h => h⟩
    | main hc hmain =>
      refine ⟨_, .main hc (.inr ?_), fun _ _ h => h⟩
      rw [hm]
      exact hmain.resolve_left (by rintro ⟨⟩)
    | task hc ht hfd hactive =>
      rcases hmem ht with rfl | ht
      · -- the task begins where the main thread is
        subst hfd
        refine ⟨.waiting i, .main hc (.inl (by rw [hm]; rfl)), fun _ _ h => ?_⟩
        cases i <;> exact h
      · exact ⟨_, .task hc ht hfd hactive, fun _ _ h => h⟩

section Step

variable [PriorityQueue Q (TimerHeap.Node Fd ℕ) TimerHeap.later] {idle : ℕ}

theorem Serving.register {s : HttpServer Q} {fd : Fd} (hs : Serving reply eof fd s) {fd' : Fd}
    {peerIp : Bytes} {rest : List Event} (hm : s.main = .register fd' peerIp rest)
    (hsingle : Single { s.register idle fd' peerIp with main := .add fd' rest }) :
    Serving reply eof fd { s.register idle fd' peerIp with main := .add fd' rest } := by
  have hpending : .client fd .hangup ∉ rest := by
    have hold := hs.noHangup
    rwa [hm] at hold
  obtain ⟨hlatest, -⟩ := hs.single.owned.main.register fd' peerIp rest hm
  have hlookup : ∀ {c}, fd ≠ fd' → (s.connections.insert fd' s.next).lookup fd = some c →
      s.connections.lookup fd = some c := by
    intro c hfd hc
    rwa [Finmap.lookup_insert_of_ne _ hfd] at hc
  have hregistered : ∀ t ∈ s.queue ++ s.tasks, t.fd = fd → t.pc.active = true →
      t.pc.pastErase = false →
        (s.connections.insert fd' s.next).lookup fd = some t.owner := by
    intro t ht hfd hactive hpast
    have hne : fd ≠ fd' := by
      rintro rfl
      subst hfd
      exact hs.single.not_has ht hactive (i := .input) (.inl (by rw [hm]; rfl))
    rw [Finmap.lookup_insert_of_ne _ hne]
    exact hs.registered t ht hfd hactive hpast
  by_cases hfd : fd = fd'
  · subst hfd
    refine ⟨hsingle, fun c hc => hs.unmade c (Nat.le_of_succ_le hc), hpending, by simp,
      hregistered, fun c hc p hp => ?_⟩
    have hc : s.next = c := by
      have hc : s.latest fd = some c := hc
      rw [hlatest] at hc
      exact Option.some.inj hc
    subst hc
    obtain ⟨hreceived, hwritten, hended⟩ := hs.unmade s.next le_rfl
    -- the session of a new connection is empty
    have hsession : (s.register idle fd peerIp).session s.next =
        ⟨{ fd, peerIp }, [], [], false⟩ := by
      simp [session, HttpServer.register, setConn, hreceived, hwritten, hended]
    have hinit : Session.Awaits reply ((s.register idle fd peerIp).session s.next) .input := by
      rw [hsession]
      exact ⟨[], Session.Answered.init rfl, Connection.framer_cut_nil⟩
    cases hp with
    | gone hnone _ =>
      have hnone : (s.connections.insert fd s.next).lookup fd = none := hnone
      rw [Finmap.lookup_insert] at hnone
      cases hnone
    | armed _ hreg =>
      have hnone := hs.single.fresh fd (by rw [hm]; rfl)
      have hreg : s.registration fd = some (some _) := hreg
      rw [hnone] at hreg
      cases hreg
    | main _ hmain =>
      rcases hmain with hcurrent | hevent
      · cases hcurrent
        exact hinit
      · -- a second token of the descriptor
        have hevent : .client fd _ ∈ rest := hevent
        have hpos : 0 < rest.countP (Event.isFor fd) :=
          List.countP_pos_iff.2 ⟨_, hevent, by simp [Event.isFor]⟩
        have hunique := hs.single.unique fd
        simp only [tally, hm, Main.tokens, Main.pending, Main.accepting, if_true] at hunique
        omega
    | task _ ht htfd hactive =>
      subst htfd
      exact (hs.single.not_has ht hactive (i := .input) (.inl (by rw [hm]; rfl))).elim
  · refine hs.move hsingle (fun c hc => ⟨Nat.le_of_succ_le hc, rfl, rfl, rfl⟩) hpending (by simp)
      hregistered rfl fun p hp => ⟨p, ?_, fun c hc h => ?_⟩
    · cases hp with
      | gone hc _ =>
        refine .gone ?_ ?_
        · rwa [show Finmap.lookup fd _ = s.connections.lookup fd from
            Finmap.lookup_insert_of_ne _ hfd] at hc
        · rw [hm]
          rintro _ _ ⟨⟩
          exact hfd rfl
      | armed hc hreg => exact .armed (hlookup hfd hc) hreg
      | main hc hmain =>
        refine .main (hlookup hfd hc) ?_
        rw [hm]
        exact hmain
      | task hc ht htfd hactive => exact .task (hlookup hfd hc) ht htfd hactive
    · have hne : c ≠ s.next := by
        rintro rfl
        exact hfd (hs.single.owned.inj fd fd' _ hc hlatest)
      have hsession : (s.register idle fd' peerIp).session c = s.session c := by
        simp only [session, HttpServer.register, setConn, Function.update_of_ne hne]
      exact hsession ▸ h

/-- A step of a thread that works on another descriptor. -/
theorem Serving.elsewhere {s s₁ : HttpServer Q} {fd : Fd} (hs : Serving reply eof fd s) {fd' : Fd}
    {pc : Pc ConnId} {r : Sys} {pc' : Option (Pc ConnId)}
    (h : s.perform idle fd' (pc.code reply) r = some (s₁, pc')) (hfd : fd ≠ fd')
    (hconn : ∀ c, pc.conn? = some c → s.latest fd' = some c)
    (hmade : ∀ c, s.latest fd' = some c → c < s.next) {m : Main} {tasks : List Task}
    (hsingle : Single { s₁ with main := m, tasks })
    (hhangup : .client fd .hangup ∉ m.pending)
    (hclosing : ∀ pc caller, m ≠ .closing fd pc caller)
    (hregister : ∀ ip rest, s.main = .register fd ip rest → m = s.main)
    (hhas : ∀ i, m.Has fd i → s.main.Has fd i)
    (htasks : ∀ t ∈ s.queue ++ tasks, t.fd = fd → t ∈ s.queue ++ s.tasks) :
    Serving reply eof fd { s₁ with main := m, tasks } := by
  have hlookup := perform_lookup_ne h hfd
  have hreg := perform_registration_ne h hfd
  have hlatest : s₁.latest = s.latest := by rw [perform_eq h]
  have hnext : s₁.next = s.next := by rw [perform_eq h]
  have hqueue : s₁.queue = s.queue := by rw [perform_eq h]
  have hsession : ∀ c, s.latest fd' ≠ some c → s₁.session c = s.session c := fun c hc =>
    session_other h (fun hpc => hc (hconn c hpc)) fun howner =>
      hc (hs.single.owned.file fd' c howner)
  have htask : ∀ t ∈ s₁.queue ++ tasks, t.fd = fd → t ∈ s.queue ++ s.tasks := hqueue ▸ htasks
  refine hs.move hsingle (fun c hc => ?_) hhangup hclosing (fun t ht htfd hactive hpast => ?_)
    (congrFun hlatest fd) fun p hp => ⟨p, ?_, fun c hc hfits => ?_⟩
  · have hle : s.next ≤ c := hnext ▸ hc
    have hsame := hsession c fun hc' => Nat.not_lt.2 hle (hmade c hc')
    exact ⟨hle, congrArg Session.received hsame, congrArg Session.written hsame,
      congrArg Session.ended hsame⟩
  · exact hlookup.trans (hs.registered t (htask t ht htfd) htfd hactive hpast)
  · cases hp with
    | gone hc hm =>
      refine .gone (hlookup ▸ hc) fun ip rest hm' => hm ip rest ?_
      rw [← hm']
      exact hregister ip rest hm'
    | armed hc hreg' => exact .armed (hlookup ▸ hc) (hreg ▸ hreg')
    | main hc hmain => exact .main (hlookup ▸ hc) (hhas _ hmain)
    | task hc ht htfd hactive => exact .task (hlookup ▸ hc) (htask _ ht htfd) htfd hactive
  · have hne : s.latest fd' ≠ some c := fun hc' => hfd (hs.single.owned.inj fd fd' c hc hc')
    exact (hsession c hne).symm ▸ hfits

theorem Serving.close {s s₁ : HttpServer Q} {fd : Fd} (hs : Serving reply eof fd s) {fd' : Fd}
    {pc : Pc ConnId} {caller : Caller} {pc' : Option (Pc ConnId)}
    (hm : s.main = .closing fd' pc caller)
    (h : s.perform idle fd' (pc.code reply) .done = some (s₁, pc'))
    (hsingle : Single
      { s₁ with main := pc'.elim caller.main fun pc' => .closing fd' pc' caller }) :
    Serving reply eof fd
      { s₁ with main := pc'.elim caller.main fun pc' => .closing fd' pc' caller } := by
  have hfd : fd ≠ fd' := by
    rintro rfl
    exact hs.notClosing pc caller hm
  have hpending : (pc'.elim caller.main fun pc' => Main.closing fd' pc' caller).pending =
      s.main.pending := by
    rw [hm]
    cases pc' <;> cases caller <;> rfl
  have hcurrent : (pc'.elim caller.main fun pc' => Main.closing fd' pc' caller).current = none := by
    cases pc' <;> cases caller <;> rfl
  have htasks : s₁.tasks = s.tasks := by rw [perform_eq h]
  refine hs.elsewhere h hfd (fun c hc => ?_) (fun c hc => ?_) hsingle (hpending ▸ hs.noHangup) ?_
    (by simp [hm]) (fun i hi => .inr ?_) (fun t ht _ => htasks ▸ ht)
  · rcases hs.single.owned.main.closing fd' pc caller hm with rfl | hpast
    · cases hc
    · cases pc <;> cases hpast <;> cases hc
      exact hs.single.owned.main.conn fd' c caller hm
  · exact hs.single.owned.latest_lt (by simp [hm]) hc
  · cases pc' <;> cases caller <;> rintro _ _ ⟨⟩
    all_goals exact hfd rfl
  · rw [← hpending]
    exact hi.resolve_left (by rw [hcurrent]; rintro ⟨⟩)

theorem Serving.main_step {s s' : HttpServer Q} {fd : Fd} {r : MainSys}
    (hs : Serving reply eof fd s) (h : MainCase reply idle s r s')
    (hl : Undisturbed eof fd s (.main r)) (hsingle : Single s') : Serving reply eof fd s' := by
  -- most steps leave the sessions alone
  have hgoto : ∀ {m m' : Main} {running : Bool} {timers : TimerHeap Q Fd ℕ}, s.main = m →
      Single { s with running, timers, main := m' } → (∀ ev ∈ m'.pending, ev ∈ m.pending) →
      (∀ i, m'.current = some (fd, i) → m.Has fd i) →
      (∀ pc caller, m' ≠ .closing fd pc caller) → (∀ ip rest, m ≠ .register fd ip rest) →
      Serving reply eof fd { s with running, timers, main := m' } := by
    intro m m' running timers hm hsingle hpending hcurrent hclosing hregister
    refine hs.goto hm hsingle (fun hev => hs.noHangup (hm ▸ hpending _ hev)) hclosing
      (fun ip rest hm' => absurd hm' (hregister ip rest)) fun i hi => ?_
    rcases hi with hi | hi
    · exact hcurrent i hi
    · exact .inr (hpending _ hi)
  have hquiet : ∀ {m m' : Main} {running : Bool} {timers : TimerHeap Q Fd ℕ}, s.main = m →
      Single { s with running, timers, main := m' } → m'.pending = [] → m'.current = none →
      (∀ pc caller, m' ≠ .closing fd pc caller) → (∀ ip rest, m ≠ .register fd ip rest) →
      Serving reply eof fd { s with running, timers, main := m' } :=
    fun hm hsingle hpending hcurrent =>
      hgoto hm hsingle (by simp [hpending]) (by simp [hcurrent])
  have hkeep : ∀ {m m' : Main} {running : Bool} {timers : TimerHeap Q Fd ℕ}, s.main = m →
      Single { s with running, timers, main := m' } → m'.pending = m.pending →
      m'.current = none → (∀ pc caller, m' ≠ .closing fd pc caller) →
      (∀ ip rest, m ≠ .register fd ip rest) →
      Serving reply eof fd { s with running, timers, main := m' } :=
    fun hm hsingle hpending hcurrent =>
      hgoto hm hsingle (fun _ hev => hpending ▸ hev) (by simp [hcurrent])
  cases h with
  | loop hm =>
    generalize hm' : (if s.running = true then Main.wait else Main.stop) = m' at hsingle ⊢
    obtain ⟨hpending, hcurrent, hclosing⟩ : m'.pending = [] ∧ m'.current = none ∧
        ∀ pc caller, m' ≠ .closing fd pc caller := by
      rw [← hm']
      split_ifs <;> exact ⟨rfl, rfl, by simp⟩
    exact hquiet hm hsingle hpending hcurrent hclosing (by simp)
  | wait hm hev hr =>
    subst hr
    exact hs.wait hm hev hl hsingle
  | interrupted hm => exact hquiet hm hsingle rfl rfl (by simp) (by simp)
  | failed hm => exact hquiet hm hsingle rfl rfl (by simp) (by simp)
  | batchEnd hm => exact hquiet hm hsingle rfl rfl (by simp) (by simp)
  | listen hm =>
    exact hgoto hm hsingle (fun _ hev => List.mem_cons_of_mem _ hev) (by simp [Main.current])
      (by simp) (by simp)
  | hangup hm =>
    refine hgoto hm hsingle (fun _ hev => List.mem_cons_of_mem _ hev) (by simp [Main.current]) ?_
      (by simp)
    rintro _ _ ⟨⟩
    exact hs.noHangup (hm ▸ List.mem_cons_self)
  | ready hm =>
    refine hgoto hm hsingle (fun _ hev => List.mem_cons_of_mem _ hev) ?_ (by simp) (by simp)
    rintro i ⟨⟩
    exact .inr List.mem_cons_self
  | accepted hm hr hfree =>
    subst hr
    exact hs.accepted hm hfree hsingle
  | refused hm => exact hkeep hm hsingle rfl rfl (by simp) (by simp)
  | register hm => exact hs.register hm hsingle
  | add hm => exact hs.add hm hsingle
  | gone hm _ => exact hkeep hm hsingle rfl rfl (by simp) (by simp)
  | dispatch hm _ =>
    exact hgoto hm hsingle (fun _ hev => hev) (fun i hi => .inl hi) (by simp) (by simp)
  | begin hm _ _ => exact hs.begin hm hsingle
  | discard hm _ => exact hkeep hm hsingle rfl rfl (by simp) (by simp)
  | enqueue hm => exact hs.enqueue hm hsingle
  | close hm hperform => exact hs.close hm hperform hsingle
  | idle hm => exact hquiet hm hsingle rfl rfl (by simp) (by simp)
  | idleEnd hm => exact hquiet hm hsingle rfl rfl (by simp) (by simp)
  | idleNext hm hr =>
    subst hr
    have hclose : s.main.closesNext fd = false := hl
    rw [hm] at hclose
    refine hquiet hm hsingle rfl rfl ?_ (by simp)
    rintro _ _ ⟨⟩
    simp [Main.closesNext] at hclose
  | stop hm => exact hquiet hm hsingle rfl rfl (by simp) (by simp)
  | join hm _ _ => exact hquiet hm hsingle rfl rfl (by simp) (by simp)
  | shutdown hm hr =>
    subst hr
    have hclose : s.main.closesNext fd = false := hl
    rw [hm] at hclose
    cases hclose

/-- An active task makes a step for its own connection. -/
theorem Serving.serve {s s₁ : HttpServer Q} {t : Task} (hs : Serving reply eof t.fd s)
    {others tasks : List Task} {r : Sys} {pc : Option (Pc ConnId)}
    (hreply : ∀ raw, (reply raw).bytes ≠ []) (hactive : t.pc.active = true)
    (hperm : (s.queue ++ s.tasks).Perm (t :: others))
    (hmem : ∀ t' ∈ s₁.queue ++ tasks, (∃ q ∈ pc, t' = { t with pc := q }) ∨ t' ∈ others)
    (h : s.perform idle t.fd (t.pc.code reply) r = some (s₁, pc))
    (hend : r = .read .eof → eof (s.conns t.owner))
    (herror : r ≠ .read .error ∧ r ≠ .write .error) (hsingle : Single { s₁ with tasks }) :
    Serving reply eof t.fd { s₁ with tasks } := by
  have ht : t ∈ s.queue ++ s.tasks := hperm.mem_iff.2 List.mem_cons_self
  have hattached := hs.single.attached t ht hactive
  have hmain : s₁.main = s.main := by rw [perform_eq h]
  have hlatest : s₁.latest = s.latest := by rw [perform_eq h]
  have hnext : s₁.next = s.next := by rw [perform_eq h]
  have hself : ∀ t' ∈ s₁.queue ++ tasks, t'.fd = t.fd → t'.pc.active = true →
      ∃ q ∈ pc, t' = { t with pc := q } := by
    intro t' ht' hfd hactive'
    refine (hmem t' ht').resolve_right fun ht' => ?_
    rw [hs.single.only_worker hperm hactive ht' hfd] at hactive'
    cases hactive'
  have hregister : ∀ ip rest, s.main ≠ .register t.fd ip rest := fun ip rest hm =>
    hs.single.not_has ht hactive (i := .input) (.inl (by rw [hm]; rfl))
  have howned := hs.single.owned.task t ht
  refine ⟨hsingle, fun c hc => ?_, hmain ▸ hs.noHangup, hmain ▸ hs.notClosing,
    fun t' ht' hfd hactive' hpast' => ?_, fun c hc p hp => ?_⟩
  · have hle : s.next ≤ c := hnext ▸ hc
    have hne : c ≠ t.owner := by
      rintro rfl
      exact Nat.not_lt.2 hle howned.made
    have hsame : s₁.session c = s.session c := by
      refine session_other h (fun hconn => hne (howned.conn c hconn)) fun howner => hne ?_
      have hfile := hs.single.owned.file t.fd c howner
      rw [hattached] at hfile
      exact (Option.some.inj hfile).symm
    obtain ⟨hreceived, hwritten, hended⟩ := hs.unmade c hle
    exact ⟨(congrArg Session.received hsame).trans hreceived,
      (congrArg Session.written hsame).trans hwritten, (congrArg Session.ended hsame).trans hended⟩
  · obtain ⟨q, hq, rfl⟩ := hself t' ht' hfd hactive'
    have hpc : ¬ (t.pc = .closeBegin ∨ t.pc.pastErase = true) := fun hpc => by
      rw [(perform_close hpc h).1 q hq] at hpast'
      cases hpast'
    rw [not_or, Bool.not_eq_true] at hpc
    exact (congrArg _ (perform_connections h hpc.1)).trans
      (hs.registered t ht rfl hactive hpc.2)
  · have hc : t.owner = c := by
      have hc : s₁.latest t.fd = some c := hc
      rw [hlatest, hattached] at hc
      exact Option.some.inj hc
    subst hc
    show Session.Fits reply eof (s₁.session t.owner) p
    cases hpast : t.pc.pastErase with
    | true =>
      -- the entry is erased, and only the connection object changes
      have hnone := howned.gone hpast
      have hnone' := (perform_frame h).gone hnone
      have hfinished : Session.Finished reply eof (s.session t.owner) :=
        hs.fits _ hattached .gone (.gone hnone hregister)
      have hsession : s₁.session t.owner =
          { s.session t.owner with conn := s₁.conns t.owner } := by
        have hcase := handler_cases h
        generalize t.pc = pc at hcase hpast
        cases hcase with
        | markClosed => rfl
        | del => rfl
        | close => rfl
        | _ => cases hpast
      cases hp with
      | gone _ _ => exact hsession ▸ hfinished.withConn _
      | armed hc _ => exact absurd (hnone'.symm.trans hc) (by simp)
      | main hc _ => exact absurd (hnone'.symm.trans hc) (by simp)
      | task hc _ _ _ => exact absurd (hnone'.symm.trans hc) (by simp)
    | false =>
      have hc := hs.registered t ht rfl hactive hpast
      have hruns : Session.Runs reply eof (s.session t.owner) t.pc :=
        hs.fits _ hattached (.running t.pc) (.task hc ht rfl hactive)
      obtain ⟨hgoes, harmed⟩ := hs.single.session_step ht hactive hc h hreply hend herror hruns
      cases hp with
      | gone hnone _ =>
        -- the entry is erased by this step
        have hclose : t.pc = .closeBegin := by
          by_contra hne
          have hnone : s₁.connections.lookup t.fd = none := hnone
          rw [perform_connections h hne, hc] at hnone
          cases hnone
        rw [hclose] at h hruns
        cases handler_cases h <;> exact hruns
      | armed _ hreg => exact harmed _ hreg
      | main _ hmain' => exact (hs.single.not_has ht hactive (hmain ▸ hmain')).elim
      | task _ ht' hfd hactive' =>
        obtain ⟨q, hq, rfl⟩ := hself _ ht' hfd hactive'
        exact hgoes q hq

theorem Serving.task_step {s s' : HttpServer Q} {fd : Fd} (hs : Serving reply eof fd s)
    (hreply : ∀ raw, (reply raw).bytes ≠ []) {i : ℕ} {r : Sys}
    (h : s.step reply idle (.task i r) = some s') (hl : Undisturbed eof fd s (.task i r))
    (hsingle : Single s') : Serving reply eof fd s' := by
  obtain ⟨l₁, t, l₂, s₁, pc, htasks, hi, hperform, rfl⟩ := taskStep_cases h
  have hperm := perm_thread_cons s.queue htasks
  have ht : t ∈ s.queue ++ s.tasks := hperm.mem_iff.2 List.mem_cons_self
  have hqueue : s₁.queue = s.queue := by rw [perform_eq hperform]
  have hmain : s₁.main = s.main := by rw [perform_eq hperform]
  have hmem : ∀ t' ∈ s₁.queue ++ (l₁ ++ (pc.map fun pc => { t with pc }).toList ++ l₂),
      (∃ q ∈ pc, t' = { t with pc := q }) ∨ t' ∈ s.queue ++ (l₁ ++ l₂) :=
    fun t' ht' => mem_taskStep (hqueue ▸ ht')
  cases hactive : t.pc.active with
  | false =>
    -- the task has given its token back
    obtain ⟨rfl, rfl⟩ := perform_inactive hperform hactive
    have htask : ∀ t' ∈ s₁.queue ++ (l₁ ++ [] ++ l₂), t' ∈ s₁.queue ++ s₁.tasks := by
      intro t' ht'
      obtain ⟨q, hq, -⟩ | ht' := hmem t' ht'
      · cases hq
      · exact hperm.mem_iff.2 (List.mem_cons_of_mem t ht')
    refine hs.move hsingle (fun c hc => ⟨hc, rfl, rfl, rfl⟩) hs.noHangup hs.notClosing
      (fun t' ht' => hs.registered t' (htask t' ht')) rfl fun p hp => ⟨p, ?_, fun _ _ h => h⟩
    cases hp with
    | gone hc hm => exact .gone hc hm
    | armed hc hreg => exact .armed hc hreg
    | main hc hhas => exact .main hc hhas
    | task hc ht' hfd hactive' => exact .task hc (htask _ ht') hfd hactive'
  | true =>
    have hattached := hs.single.attached t ht hactive
    by_cases hfd : fd = t.fd
    · subst hfd
      refine hs.serve hreply hactive hperm hmem hperform ?_ ⟨?_, ?_⟩ hsingle
      · rintro rfl
        exact hl t hi rfl
      · rintro rfl
        exact hl t hi rfl
      · rintro rfl
        exact hl t hi rfl
    · refine hs.elsewhere hperform hfd (fun c hc => ?_) (fun c hc => ?_) (m := s₁.main) hsingle
        (hmain ▸ hs.noHangup) (hmain ▸ hs.notClosing) (fun _ _ _ => hmain) (fun i hi => hmain ▸ hi)
        fun t' ht' htfd => ?_
      · rw [(hs.single.owned.task t ht).conn c hc]
        exact hattached
      · rw [hattached] at hc
        rw [← Option.some.inj hc]
        exact (hs.single.owned.task t ht).made
      · obtain ⟨q, -, rfl⟩ | ht' := hmem t' (hqueue ▸ ht')
        · exact absurd htfd.symm hfd
        · exact hperm.mem_iff.2 (List.mem_cons_of_mem t ht')

/-! ### Runs -/

theorem Serving.init {fd : Fd} : Serving reply eof fd (lts (Q := Q) reply idle).init where
  single := .init
  unmade _ _ := ⟨rfl, rfl, rfl⟩
  noHangup := List.not_mem_nil
  notClosing := by rintro _ _ ⟨⟩
  registered := by rintro t ⟨⟩
  fits := by rintro c ⟨⟩

theorem Serving.step {s s' : HttpServer Q} {fd : Fd} {l : Label} (hs : Serving reply eof fd s)
    (hreply : ∀ raw, (reply raw).bytes ≠ []) (hl : Undisturbed eof fd s l)
    (h : s.step reply idle l = some s') : Serving reply eof fd s' := by
  have hsingle : Single s' := hs.single.step hl.freeNumber h
  cases l with
  | tick d =>
    cases h
    exact hs.goto rfl hsingle hs.noHangup hs.notClosing (fun _ _ _ => rfl) fun _ hi => hi
  | requestStop =>
    cases h
    exact hs.goto rfl hsingle hs.noHangup hs.notClosing (fun _ _ _ => rfl) fun _ hi => hi
  | main r => exact hs.main_step (mainStep_cases h) hl hsingle
  | start =>
    obtain ⟨t, queue, hqueue, rfl⟩ := start_cases h
    have hperm := perm_start hqueue s.tasks
    refine hs.move hsingle (fun c hc => ⟨hc, rfl, rfl, rfl⟩) hs.noHangup hs.notClosing
      (fun t' ht' => hs.registered t' (hperm.mem_iff.1 ht')) rfl fun p hp => ⟨p, ?_, fun _ _ h => h⟩
    cases hp with
    | gone hc hm => exact .gone hc hm
    | armed hc hreg => exact .armed hc hreg
    | main hc hhas => exact .main hc hhas
    | task hc ht hfd hactive => exact .task hc (hperm.mem_iff.1 ht) hfd hactive
  | task i r => exact hs.task_step hreply h hl hsingle

theorem serving_of_reachable {s : HttpServer Q} {fd : Fd}
    (hreply : ∀ raw, (reply raw).bytes ≠ [])
    (h : (lts reply idle).ReachableIf (Undisturbed eof fd) s) : Serving reply eof fd s :=
  h.invariant .init fun _ _ _ _ hs hl hstep => hs.step hreply hl hstep

end Step

end HttpServer

end MiniServer
