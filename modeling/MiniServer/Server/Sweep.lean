import MiniServer.LTS.Record
import MiniServer.Server.IdleTimer
import MiniServer.Timer.Refinement

/-!
# What a pass of the idle timer leaves

The deadline of a descriptor is set when its connection is put into the table and refreshed by
`handleRead` and `handleWrite`.  `Clock` records when, and when `closeIdleConnections` has last read
the clock.  A pass misses nobody: behind it every registered descriptor was refreshed after the pass
read the clock, or less than the idle timeout before (`idle_swept`).
-/

namespace MiniServer

/-- What is recorded of the clock. -/
structure Clock where
  /-- When the timer of a descriptor was last set. -/
  refreshed : Fd → ℕ := fun _ => 0
  /-- The time at which `popExpired` was last called. -/
  swept : Option ℕ := none

namespace Clock

/-- The timer of a descriptor is set. -/
def set (m : Clock) (fd : Fd) (t : ℕ) : Clock :=
  { m with refreshed := Function.update m.refreshed fd t }

@[simp] theorem set_swept (m : Clock) (fd : Fd) (t : ℕ) : (m.set fd t).swept = m.swept := rfl

theorem set_self (m : Clock) (fd : Fd) (t : ℕ) : (m.set fd t).refreshed fd = t := by simp [set]

theorem set_ne {fd fd' : Fd} (h : fd' ≠ fd) (m : Clock) (t : ℕ) :
    (m.set fd t).refreshed fd' = m.refreshed fd' := by simp [set, h]

/-- The timer of a descriptor was set after the last pass, or less than the timeout before. -/
def Fresh (idle : ℕ) (m : Clock) (fd : Fd) : Prop :=
  ∀ t, m.swept = some t → t ≤ m.refreshed fd ∨ t < m.refreshed fd + idle

end Clock

/-- A program counter before a refresh of the timer. -/
def Pc.refreshes {C : Type} : Pc C → Bool
  | .readRefresh => true
  | .writeRefresh _ _ => true
  | _ => false

namespace HttpServer

variable {Q : Type}

/-- The record after a step. -/
def clock (m : Clock) (s : HttpServer Q) : Label → Clock
  | .main _ =>
    match s.main with
    | .register fd _ _ => m.set fd s.now
    | .idle => { m with swept := some s.now }
    | _ => m
  | .task i _ =>
    match s.tasks[i]? with
    | some t => if t.pc.refreshes then m.set t.fd s.now else m
    | none => m
  | _ => m

variable [PriorityQueue Q (TimerHeap.Node Fd ℕ) TimerHeap.later]

/-- The invariant of the server and the record. -/
structure Swept (idle : ℕ) (s : HttpServer Q) (m : Clock) : Prop where
  timers : HasTimers s
  covered : s.timers.Covered
  deadline : ∀ fd d, s.timers.deadline fd = some d → d = m.refreshed fd + idle
  past : ∀ t, m.swept = some t → t ≤ s.now
  fresh : ∀ fd c, s.connections.lookup fd = some c → fd ∉ s.main.expiring → Clock.Fresh idle m fd

variable {reply : Bytes → Answer} {idle : ℕ} {s s' : HttpServer Q} {m : Clock}

/-- A step that sets no timer. -/
theorem Swept.of_unset (hs : Swept idle s m) (htimers : HasTimers s')
    (hunset : s'.timers = s.timers ∨ ∃ fd, s'.timers = s.timers.remove fd) (hnow : s.now ≤ s'.now)
    (hlookup : ∀ fd c, s'.connections.lookup fd = some c → s.connections.lookup fd = some c)
    (hexpiring : ∀ fd c, s'.connections.lookup fd = some c → fd ∈ s.main.expiring →
      fd ∈ s'.main.expiring) : Swept idle s' m where
  timers := htimers
  covered := by
    rcases hunset with heq | ⟨fd, heq⟩ <;> rw [heq]
    · exact hs.covered
    · exact hs.covered.remove fd
  deadline fd d hd := by
    refine hs.deadline fd d ?_
    rcases hunset with heq | ⟨fd', heq⟩ <;> rw [heq] at hd
    · exact hd
    · rw [TimerHeap.deadline_remove] at hd
      split_ifs at hd
      exact hd
  past t ht := (hs.past t ht).trans hnow
  fresh fd c hc hfd :=
    hs.fresh fd c (hlookup fd c hc) fun hmem => hfd (hexpiring fd c hc hmem)

/-- A step that sets a timer. -/
theorem Swept.refresh (hs : Swept idle s m) (htimers : HasTimers s') {fd : Fd}
    (hset : s'.timers = s.timers.addOrUpdate fd (s.now + idle)) (hnow : s'.now = s.now)
    (hlookup : ∀ fd' c, fd' ≠ fd → s'.connections.lookup fd' = some c →
      s.connections.lookup fd' = some c)
    (hexpiring : s'.main.expiring = s.main.expiring) : Swept idle s' (m.set fd s.now) where
  timers := htimers
  covered := hset ▸ hs.covered.addOrUpdate fd _
  deadline fd' d hd := by
    rw [hset, TimerHeap.deadline_addOrUpdate] at hd
    by_cases hfd : fd' = fd
    · subst hfd
      rw [if_pos rfl] at hd
      cases hd
      rw [Clock.set_self]
    · rw [if_neg hfd] at hd
      rw [Clock.set_ne hfd]
      exact hs.deadline fd' d hd
  past t ht := (hs.past t ht).trans_eq hnow.symm
  fresh fd' c hc hfd t ht := by
    by_cases hne : fd' = fd
    · subst hne
      rw [Clock.set_self]
      exact .inl (hs.past t ht)
    · rw [Clock.set_ne hne]
      exact hs.fresh fd' c (hlookup fd' c hne hc) (hexpiring ▸ hfd) t ht

/-- `popExpired` takes every deadline that has passed. -/
theorem Swept.pass (hs : Swept idle s m) (hm : s.main = .idle)
    (htimers : HasTimers
      { s with timers := (s.timers.popExpired s.now).2
               main := .expired (s.timers.popExpired s.now).1 }) :
    Swept idle
      { s with timers := (s.timers.popExpired s.now).2
               main := .expired (s.timers.popExpired s.now).1 }
      { m with swept := some s.now } where
  timers := htimers
  covered := TimerHeap.covered_popLoop hs.covered
  deadline fd d hd := by
    change (s.timers.popExpired s.now).2.deadline fd = some d at hd
    rw [TimerHeap.popExpired, TimerHeap.popLoop_deadline] at hd
    split_ifs at hd
    exact hs.deadline fd d hd
  past t ht := (Option.some.inj ht).ge
  fresh fd c hc hfd t ht := by
    cases ht
    -- a descriptor that is left has a deadline that has not passed
    obtain ⟨d, hd⟩ := Option.isSome_iff_exists.1
      ((hs.timers.timer fd c hc).resolve_right fun hmem => by rw [hm] at hmem; cases hmem)
    right
    rw [← hs.deadline fd d hd]
    by_contra hdue
    exact hfd (TimerHeap.mem_popLoop hs.covered le_rfl hd (not_lt.1 hdue))

/-- What a step of a handler does to the timers. -/
theorem perform_timers {fd : Fd} {pc : Pc ConnId} {r : Sys} {pc' : Option (Pc ConnId)}
    (h : s.perform idle fd (pc.code reply) r = some (s', pc')) :
    pc.refreshes = true ∧ s'.timers = s.timers.addOrUpdate fd (s.now + idle) ∨
      pc.refreshes = false ∧ (s'.timers = s.timers ∨ s'.timers = s.timers.remove fd) := by
  cases handler_cases h with
  | readRefresh => exact .inl ⟨rfl, rfl⟩
  | writeRefreshMore => exact .inl ⟨rfl, rfl⟩
  | writeRefresh => exact .inl ⟨rfl, rfl⟩
  | closeErase _ => exact .inr ⟨rfl, .inr rfl⟩
  | _ => exact .inr ⟨rfl, .inl rfl⟩

/-- A step of `closeConnection` in the main thread. -/
theorem Swept.close (hs : Swept idle s m) {fd : Fd} {pc : Pc ConnId} {caller : Caller}
    {s₁ : HttpServer Q} {pc' : Option (Pc ConnId)} (hm : s.main = .closing fd pc caller)
    (h : s.perform idle fd (pc.code reply) .done = some (s₁, pc'))
    (htimers : HasTimers
      { s₁ with main := pc'.elim caller.main fun pc' => .closing fd pc' caller }) :
    Swept idle { s₁ with main := pc'.elim caller.main fun pc' => .closing fd pc' caller } m := by
  have hpc := hs.timers.closing fd pc caller hm
  obtain ⟨hpast, herase⟩ := perform_close hpc h
  have hexpiring : (pc'.elim caller.main fun pc' => .closing fd pc' caller).expiring =
      caller.main.expiring := by
    cases pc' with
    | none => rfl
    | some q =>
      refine caller.expiring_main fd ?_
      rintro rfl
      cases hpast _ rfl
  have hunset : s₁.timers = s.timers ∨ ∃ fd, s₁.timers = s.timers.remove fd := by
    rcases perform_timers h with ⟨hrefresh, -⟩ | ⟨-, htimer⟩
    · rcases hpc with rfl | hpc
      · cases hrefresh
      · cases pc <;> cases hrefresh <;> cases hpc
    · exact htimer.imp id fun heq => ⟨fd, heq⟩
  refine hs.of_unset htimers hunset (by rw [perform_eq h]) (perform_effect h).table
    fun fd' c hc hmem => ?_
  rw [hexpiring]
  rw [hm] at hmem
  by_cases hbegin : pc = .closeBegin
  · -- the descriptor at the head of the list is no longer in the table
    have hne : fd' ≠ fd := by
      rintro rfl
      have hc : s₁.connections.lookup fd' = some c := hc
      rw [herase hbegin] at hc
      cases hc
    subst hbegin
    cases caller with
    | events rest => exact hmem
    | idle rest => exact (List.mem_cons.1 hmem).resolve_left hne
  · rwa [caller.expiring_main fd hbegin] at hmem

theorem Swept.main_step (hs : Swept idle s m) {r : MainSys} (h : MainCase reply idle s r s')
    (htimers : HasTimers s') : Swept idle s' (clock m s (.main r)) := by
  -- most steps leave the tables alone, and no descriptor is about to expire
  have hmove : ∀ {s' : HttpServer Q}, HasTimers s' → clock m s (.main r) = m →
      s.main.expiring ⊆ s'.main.expiring → s'.timers = s.timers →
      s'.connections = s.connections → s'.now = s.now → Swept idle s' (clock m s (.main r)) := by
    intro s' htimers hclock hsub htimer hconn hnow
    rw [hclock]
    exact hs.of_unset htimers (.inl htimer) hnow.ge (fun fd c hc => hconn ▸ hc)
      fun fd c _ hmem => hsub hmem
  have hnone : ∀ {m₀ m' : Main}, s.main = m₀ → m₀.expiring = [] →
      s.main.expiring ⊆ m'.expiring := by
    rintro m₀ m' rfl hm
    rw [hm]
    exact List.nil_subset _
  cases h with
  | wait hm hev _ =>
    obtain ⟨files, rfl⟩ := deliverAll_eq hev
    exact hmove htimers (by simp [clock, hm]) (hnone hm rfl) rfl rfl rfl
  | @register fd peerIp rest hm =>
    rw [show clock m s (.main r) = m.set fd s.now by simp [clock, hm]]
    refine hs.refresh htimers rfl rfl (fun fd' c hfd hc => ?_) (by rw [hm]; rfl)
    change (s.connections.insert fd s.next).lookup fd' = some c at hc
    rwa [Finmap.lookup_insert_of_ne _ hfd] at hc
  | close hm hperform =>
    rw [show clock m s (.main r) = m by simp [clock, hm]]
    exact hs.close hm hperform htimers
  | idle hm =>
    rw [show clock m s (.main r) = { m with swept := some s.now } by simp [clock, hm]]
    exact hs.pass hm htimers
  | idleNext hm _ =>
    exact hmove htimers (by simp [clock, hm]) (by rw [hm]; exact fun _ hmem => hmem) rfl rfl rfl
  | shutdown hm _ =>
    rw [show clock m s (.main r) = m by simp [clock, hm]]
    have hempty : ∀ fd c, s.closeAll.connections.lookup fd ≠ some c := by
      intro fd c hc
      change (∅ : Finmap fun _ : Fd => ConnId).lookup fd = some c at hc
      rw [Finmap.lookup_empty] at hc
      cases hc
    exact hs.of_unset htimers (.inl rfl) le_rfl (fun fd c hc => absurd hc (hempty fd c))
      fun fd c hc => absurd hc (hempty fd c)
  | loop hm => exact hmove htimers (by simp [clock, hm]) (hnone hm rfl) rfl rfl rfl
  | interrupted hm => exact hmove htimers (by simp [clock, hm]) (hnone hm rfl) rfl rfl rfl
  | failed hm => exact hmove htimers (by simp [clock, hm]) (hnone hm rfl) rfl rfl rfl
  | batchEnd hm => exact hmove htimers (by simp [clock, hm]) (hnone hm rfl) rfl rfl rfl
  | listen hm => exact hmove htimers (by simp [clock, hm]) (hnone hm rfl) rfl rfl rfl
  | hangup hm => exact hmove htimers (by simp [clock, hm]) (hnone hm rfl) rfl rfl rfl
  | ready hm => exact hmove htimers (by simp [clock, hm]) (hnone hm rfl) rfl rfl rfl
  | accepted hm _ _ => exact hmove htimers (by simp [clock, hm]) (hnone hm rfl) rfl rfl rfl
  | refused hm => exact hmove htimers (by simp [clock, hm]) (hnone hm rfl) rfl rfl rfl
  | add hm => exact hmove htimers (by simp [clock, hm]) (hnone hm rfl) rfl rfl rfl
  | gone hm _ => exact hmove htimers (by simp [clock, hm]) (hnone hm rfl) rfl rfl rfl
  | dispatch hm _ => exact hmove htimers (by simp [clock, hm]) (hnone hm rfl) rfl rfl rfl
  | begin hm _ _ => exact hmove htimers (by simp [clock, hm]) (hnone hm rfl) rfl rfl rfl
  | discard hm _ => exact hmove htimers (by simp [clock, hm]) (hnone hm rfl) rfl rfl rfl
  | enqueue hm => exact hmove htimers (by simp [clock, hm]) (hnone hm rfl) rfl rfl rfl
  | idleEnd hm => exact hmove htimers (by simp [clock, hm]) (hnone hm rfl) rfl rfl rfl
  | stop hm => exact hmove htimers (by simp [clock, hm]) (hnone hm rfl) rfl rfl rfl
  | join hm _ _ => exact hmove htimers (by simp [clock, hm]) (hnone hm rfl) rfl rfl rfl

theorem Swept.task_step (hs : Swept idle s m) {i : ℕ} {r : Sys}
    (h : s.step reply idle (.task i r) = some s') (htimers : HasTimers s') :
    Swept idle s' (clock m s (.task i r)) := by
  obtain ⟨l₁, t, l₂, s₁, pc, -, hi, hperform, rfl⟩ := taskStep_cases h
  have hmain : s₁.main = s.main := by rw [perform_eq hperform]
  have hnow : s₁.now = s.now := by rw [perform_eq hperform]
  have hlookup := (perform_effect hperform).table
  simp only [clock, hi]
  rcases perform_timers hperform with ⟨hrefresh, htimer⟩ | ⟨hrefresh, htimer⟩
  · rw [if_pos hrefresh]
    exact hs.refresh htimers htimer hnow (fun fd' c _ => hlookup fd' c) (congrArg _ hmain)
  · rw [if_neg (by simp [hrefresh])]
    exact hs.of_unset htimers (htimer.imp id fun heq => ⟨t.fd, heq⟩) hnow.ge hlookup
      fun fd c _ hmem => hmain ▸ hmem

theorem Swept.step (hs : Swept idle s m) {l : Label} (h : s.step reply idle l = some s') :
    Swept idle s' (clock m s l) := by
  have htimers : HasTimers s' := hs.timers.step h
  cases l with
  | tick d =>
    cases h
    exact hs.of_unset htimers (.inl rfl) (Nat.le_add_right _ _) (fun _ _ hc => hc)
      fun _ _ _ hmem => hmem
  | requestStop =>
    cases h
    exact hs.of_unset htimers (.inl rfl) le_rfl (fun _ _ hc => hc) fun _ _ _ hmem => hmem
  | main r => exact hs.main_step (mainStep_cases h) htimers
  | start =>
    obtain ⟨t, queue, -, rfl⟩ := start_cases h
    exact hs.of_unset htimers (.inl rfl) le_rfl (fun _ _ hc => hc) fun _ _ _ hmem => hmem
  | task i r => exact hs.task_step h htimers

theorem Swept.init : Swept idle (lts (Q := Q) reply idle).init {} where
  timers := by
    refine ⟨by rintro _ _ _ ⟨⟩, fun fd c hc => ?_⟩
    change (∅ : Finmap fun _ : Fd => ConnId).lookup fd = some c at hc
    rw [Finmap.lookup_empty] at hc
    cases hc
  covered := TimerHeap.covered_new
  deadline fd d hd := by
    have hd : (TimerHeap.new : TimerHeap Q Fd ℕ).deadline fd = some d := hd
    rw [TimerHeap.deadline_new] at hd
    cases hd
  past := nofun
  fresh _ _ _ _ := nofun

/-- **A pass of the idle timer misses nobody.**  In every run, outside `closeIdleConnections`, the
timer of every registered descriptor was set (at the accept, behind the last read, or behind the
last complete response) after the last pass read the clock, or less than the idle timeout before;
and it expires the idle timeout after it was set. -/
theorem idle_swept (h : ((lts reply idle).record {} clock).Reachable (s, m))
    (hm : s.main.inIdle = false) {fd : Fd} {c : ConnId}
    (hc : s.connections.lookup fd = some c) :
    s.timers.deadline fd = some (m.refreshed fd + idle) ∧
      ∀ t, m.swept = some t → t ≤ m.refreshed fd ∨ t < m.refreshed fd + idle := by
  have hs : Swept idle s m :=
    LTS.record_invariant (I := Swept idle) h .init fun _ _ _ _ _ hs hstep => hs.step hstep
  have hexpiring := Main.expiring_of_not_inIdle hm
  constructor
  · obtain ⟨d, hd⟩ := Option.isSome_iff_exists.1 ((hs.timers.timer fd c hc).resolve_right
      (by rw [hexpiring]; exact List.not_mem_nil))
    rw [hd, hs.deadline fd d hd]
  · exact hs.fresh fd c hc (by rw [hexpiring]; exact List.not_mem_nil)

/-- A client is accepted, and a pass 10 later leaves it. -/
def sweptRun : List Label :=
  [.main .done, .main (.events [.listen]), .main .done, .main (.accepted 5 []), .main .done,
    .main .done, .main .refused, .tick 10, .main .done, .main .done, .main .done]

theorem idle_swept_sample :
    ∃ s m, (sample.record {} clock).Reachable (s, m) ∧ m.swept = some 10 ∧
      s.timers.deadline 5 = some (m.refreshed 5 + 30) ∧
        (10 ≤ m.refreshed 5 ∨ 10 < m.refreshed 5 + 30) := by
  obtain ⟨⟨s, m⟩, hrun, hm, hc, hswept⟩ :
      ∃ p ∈ (sample.record {} clock).run (sample.record {} clock).init sweptRun,
        p.1.main.inIdle = false ∧ p.1.connections.lookup 5 = some 0 ∧ p.2.swept = some 10 := by
    decide +kernel
  have h := LTS.reachable_of_run hrun
  obtain ⟨hdeadline, hfresh⟩ := idle_swept h hm hc
  exact ⟨s, m, h, hswept, hdeadline, hfresh 10 hswept⟩

end HttpServer

end MiniServer
