import MiniServer.Server.Ownership
import MiniServer.Server.Tokens

/-!
# One worker for each connection, and no lost event

When `accept` returns no number that a task still works on, a descriptor has at most one token
(`Single.unique`) and a registered one has exactly one (`Single.held`).  So two workers never work
on one connection, the main thread finds `processing()` false whenever it handles an event, and no
connection is left without an armed event, a pending event, a task or the main thread.
-/

namespace MiniServer

namespace HttpServer

variable {Q : Type}

/-- `accept` returns a number that was not used before. -/
def FreshNumber (s : HttpServer Q) : Label → Prop
  | .main (.accepted fd _) => s.latest fd = none
  | _ => True

instance (s : HttpServer Q) : (l : Label) → Decidable (FreshNumber s l)
  | .main (.accepted fd _) => inferInstanceAs (Decidable (s.latest fd = none))
  | .main .done | .main (.events _) | .main .interrupted | .main .failed | .main .refused
  | .tick _ | .requestStop | .start | .task _ _ => inferInstanceAs (Decidable True)

/-- `accept` returns a number only when no task works on it any more. -/
def FreeNumber (s : HttpServer Q) : Label → Prop
  | .main (.accepted fd _) => ∀ t ∈ s.queue ++ s.tasks, t.fd = fd → t.pc.active = false
  | _ => True

theorem FreeNumber.reuseSafe {s : HttpServer Q} {l : Label} (h : FreeNumber s l) :
    ReuseSafe s l := by
  unfold ReuseSafe
  split
  · intro t ht hfd
    have hactive : t.pc.active = false := h t ht hfd
    cases hpc : t.pc with
    | access c record => rfl
    | _ => simp [hpc, Pc.active] at hactive
  · trivial

/-! ### The invariant -/

/-- A descriptor has at most one token, and a registered one has exactly one. -/
structure Single (s : HttpServer Q) : Prop where
  owned : Owned s
  attached : ∀ t ∈ s.queue ++ s.tasks, t.pc.active = true → s.latest t.fd = some t.owner
  live : ∀ fd, 1 ≤ s.main.tokens fd → (s.owner fd).isSome = true
  unique : ∀ fd, s.tally fd ≤ 1
  held : ∀ fd c, s.connections.lookup fd = some c → 1 ≤ s.tally fd
  opened : ∀ fd c, s.connections.lookup fd = some c → (s.conns c).closed = false
  entered : ∀ fd c, s.connections.lookup fd = some c →
    s.main.accepting = some fd ∨ (s.registration fd).isSome = true
  fresh : ∀ fd, s.main.accepting = some fd → s.registration fd = none
  begun : ∀ fd c i rest, s.main = .begin fd c i rest ∨ s.main = .enqueue fd c i rest →
    s.connections.lookup fd = some c
  rearm : ∀ t ∈ s.queue ++ s.tasks, ∀ c i record, t.pc = .rearm c i record →
    (s.conns c).closed = true ∨ (s.conns c).processing = false
  idle : ∀ fd c, s.connections.lookup fd = some c → s.workers fd = 0 →
    (∀ c' i rest, s.main ≠ .enqueue fd c' i rest) → (s.conns c).processing = false

/-- No task works on a number that was not used before. -/
theorem Single.freeNumber {s : HttpServer Q} (hs : Single s) {l : Label} (hl : FreshNumber s l) :
    FreeNumber s l := by
  unfold FreeNumber
  split
  · rintro t ht rfl
    have hlatest : s.latest t.fd = none := hl
    by_contra hactive
    rw [hs.attached t ht (by simpa using hactive)] at hlatest
    cases hlatest
  · trivial

/-- A registered descriptor belongs to the connection that got its number. -/
theorem Single.latest {s : HttpServer Q} (hs : Single s) {fd : Fd} {c : ConnId}
    (hc : s.connections.lookup fd = some c) : s.latest fd = some c :=
  hs.owned.file fd c (hs.owned.table fd c hc)

/-- What the invariant says of one descriptor. -/
structure OneToken (s : HttpServer Q) (fd : Fd) : Prop where
  unique : s.tally fd ≤ 1
  held : ∀ c, s.connections.lookup fd = some c → 1 ≤ s.tally fd
  opened : ∀ c, s.connections.lookup fd = some c → (s.conns c).closed = false
  entered : ∀ c, s.connections.lookup fd = some c →
    s.main.accepting = some fd ∨ (s.registration fd).isSome = true
  fresh : s.main.accepting = some fd → s.registration fd = none
  idle : ∀ c, s.connections.lookup fd = some c → s.workers fd = 0 →
    (∀ c' i rest, s.main ≠ .enqueue fd c' i rest) → (s.conns c).processing = false

theorem Single.oneToken {s : HttpServer Q} (hs : Single s) (fd : Fd) : OneToken s fd :=
  ⟨hs.unique fd, hs.held fd, hs.opened fd, hs.entered fd, hs.fresh fd, hs.idle fd⟩

theorem Single.of_oneToken {s : HttpServer Q} (howned : Owned s)
    (hattached : ∀ t ∈ s.queue ++ s.tasks, t.pc.active = true → s.latest t.fd = some t.owner)
    (hlive : ∀ fd, 1 ≤ s.main.tokens fd → (s.owner fd).isSome = true)
    (hone : ∀ fd, OneToken s fd)
    (hbegun : ∀ fd c i rest, s.main = .begin fd c i rest ∨ s.main = .enqueue fd c i rest →
      s.connections.lookup fd = some c)
    (hrearm : ∀ t ∈ s.queue ++ s.tasks, ∀ c i record, t.pc = .rearm c i record →
      (s.conns c).closed = true ∨ (s.conns c).processing = false) : Single s where
  owned := howned
  attached := hattached
  live := hlive
  unique fd := (hone fd).unique
  held fd := (hone fd).held
  opened fd := (hone fd).opened
  entered fd := (hone fd).entered
  fresh fd := (hone fd).fresh
  begun := hbegun
  rearm := hrearm
  idle fd := (hone fd).idle

/-- A step that leaves the connection of a descriptor alone, and its token unless there is no
connection. -/
theorem OneToken.frame {s s' : HttpServer Q} {fd : Fd} (h : OneToken s fd)
    (hlookup : ∀ c, s'.connections.lookup fd = some c →
      s.connections.lookup fd = some c ∧ s'.conns c = s.conns c ∧ s.tally fd ≤ s'.tally fd)
    (htally : s'.tally fd ≤ s.tally fd)
    (hreg : (s'.registration fd).isSome = (s.registration fd).isSome)
    (haccept : s'.main.accepting = some fd ↔ s.main.accepting = some fd)
    (hidle : s'.workers fd = 0 → (∀ c i rest, s'.main ≠ .enqueue fd c i rest) →
      s.workers fd = 0 ∧ ∀ c i rest, s.main ≠ .enqueue fd c i rest) : OneToken s' fd := by
  constructor
  case unique => exact htally.trans h.unique
  case held =>
    intro c hc
    obtain ⟨hc, -, hle⟩ := hlookup c hc
    exact (h.held c hc).trans hle
  case opened =>
    intro c hc
    obtain ⟨hc, hconn, -⟩ := hlookup c hc
    rw [hconn]
    exact h.opened c hc
  case entered =>
    intro c hc
    rw [haccept, hreg]
    exact h.entered c (hlookup c hc).1
  case fresh =>
    intro haccepting
    rw [← Option.not_isSome_iff_eq_none, hreg, Option.not_isSome_iff_eq_none]
    exact h.fresh (haccept.1 haccepting)
  case idle =>
    intro c hc hworkers hmain
    obtain ⟨hc, hconn, -⟩ := hlookup c hc
    rw [hconn]
    exact h.idle c hc (hidle hworkers hmain).1 (hidle hworkers hmain).2

/-- A descriptor without a connection. -/
theorem OneToken.of_gone {s : HttpServer Q} {fd : Fd} (hgone : s.connections.lookup fd = none)
    (hunique : s.tally fd ≤ 1) (hfresh : s.main.accepting = some fd → s.registration fd = none) :
    OneToken s fd := by
  have hvacuous : ∀ {P : Prop} {c}, s.connections.lookup fd = some c → P := by
    intro P c hc
    rw [hgone] at hc
    cases hc
  exact ⟨hunique, fun c hc => hvacuous hc, fun c hc => hvacuous hc,
    fun c hc => hvacuous hc, hfresh, fun c hc => hvacuous hc⟩

/-- What a task leaves behind for its own descriptor. -/
structure Kept (s s' : HttpServer Q) (fd : Fd) : Prop where
  tally : s'.tally fd ≤ s.tally fd
  held : ∀ c, s'.connections.lookup fd = some c → 1 ≤ s'.tally fd
  opened : ∀ c, s'.connections.lookup fd = some c → (s'.conns c).closed = false
  entered : ∀ c, s'.connections.lookup fd = some c →
    s'.main.accepting = some fd ∨ (s'.registration fd).isSome = true
  fresh : s'.main.accepting = some fd → s'.registration fd = none
  idle : ∀ c, s'.connections.lookup fd = some c → s'.workers fd = 0 →
    (∀ c' i rest, s'.main ≠ .enqueue fd c' i rest) → (s'.conns c).processing = false

theorem Kept.oneToken {s s' : HttpServer Q} {fd : Fd} (h : Kept s s' fd) (hs : Single s) :
    OneToken s' fd where
  unique := h.tally.trans (hs.unique fd)
  held := h.held
  opened := h.opened
  entered := h.entered
  fresh := h.fresh
  idle := h.idle

/-! ### Steps of the main thread -/

/-- A step that leaves the tables, the objects and the tasks alone and moves a token. -/
theorem Single.move {s s' : HttpServer Q} (hs : Single s) (howned : Owned s')
    (hconn : s'.connections = s.connections) (hconns : s'.conns = s.conns)
    (hlatest : s'.latest = s.latest) (htasks : (s'.queue ++ s'.tasks).Perm (s.queue ++ s.tasks))
    (hreg : ∀ fd, (s'.registration fd).isSome = (s.registration fd).isSome)
    (haccept : s'.main.accepting = s.main.accepting)
    (hlive : ∀ fd, 1 ≤ s'.main.tokens fd → (s'.owner fd).isSome = true)
    (htally : ∀ fd, s'.tally fd ≤ s.tally fd)
    (hheld : ∀ fd c, s.connections.lookup fd = some c → s.tally fd ≤ s'.tally fd)
    (hbegun : ∀ fd c i rest, s'.main = .begin fd c i rest ∨ s'.main = .enqueue fd c i rest →
      s.connections.lookup fd = some c)
    (hqueue : ∀ fd c i rest, s.main = .enqueue fd c i rest → s'.main = .enqueue fd c i rest) :
    Single s' := by
  have hmem : ∀ {t}, t ∈ s'.queue ++ s'.tasks → t ∈ s.queue ++ s.tasks := htasks.mem_iff.1
  have hworkers : ∀ fd, s'.workers fd = s.workers fd := fun fd => htasks.countP_eq _
  refine .of_oneToken howned (fun t ht => hlatest ▸ hs.attached t (hmem ht)) hlive (fun fd => ?_)
    (by rw [hconn]; exact hbegun) (by rw [hconns]; exact fun t ht => hs.rearm t (hmem ht))
  refine (hs.oneToken fd).frame (fun c hc => ?_) (htally fd) (hreg fd)
    (by rw [haccept]) fun hnone hmain => ?_
  · have hc : s.connections.lookup fd = some c := hconn ▸ hc
    exact ⟨hc, by rw [hconns], hheld fd c hc⟩
  · exact ⟨hworkers fd ▸ hnone, fun c i rest hm => hmain c i rest (hqueue fd c i rest hm)⟩

/-- A step that changes the program counter of the main thread only. -/
theorem Single.goto {s : HttpServer Q} (hs : Single s) {m m' : Main} {now : ℕ} {running : Bool}
    {timers : TimerHeap Q Fd ℕ} (hm : s.main = m)
    (howned : Owned { s with now, running, timers, main := m' })
    (haccept : m'.accepting = m.accepting) (htokens : ∀ fd, m'.tokens fd ≤ m.tokens fd)
    (hheld : ∀ fd c, s.connections.lookup fd = some c → m.tokens fd ≤ m'.tokens fd)
    (hbegun : ∀ fd c i rest, m' = .begin fd c i rest ∨ m' = .enqueue fd c i rest →
      s.connections.lookup fd = some c)
    (hqueue : ∀ fd c i rest, m ≠ .enqueue fd c i rest) :
    Single { s with now, running, timers, main := m' } := by
  subst hm
  refine hs.move howned rfl rfl rfl (.refl _) (fun _ => rfl) haccept
    (fun fd htoken => hs.live fd (htoken.trans (htokens fd))) (fun fd => ?_)
    (fun fd c hc => ?_) hbegun fun fd c i rest hm => absurd hm (hqueue fd c i rest)
  · exact Nat.add_le_add_right (Nat.add_le_add_left (htokens fd) _) _
  · exact Nat.add_le_add_right (Nat.add_le_add_left (hheld fd c hc) _) _

theorem Single.wait {s s₁ : HttpServer Q} (hs : Single s) {evs : List Event} (hm : s.main = .wait)
    (hev : s.deliverAll evs = some s₁) (howned : Owned { s₁ with main := .events evs }) :
    Single { s₁ with main := .events evs } := by
  have harmed := deliverAll_armed hev
  have howner := deliverAll_owner hev
  obtain ⟨files, rfl⟩ := deliverAll_eq hev
  have htally : ∀ fd, tally { s with files, main := .events evs } fd = s.tally fd := by
    intro fd
    have hold : s.tally fd = (s.armed fd).toNat + 0 + s.workers fd := by rw [tally, hm]; rfl
    have hcount := (harmed fd).1
    change (armed { s with files } fd).toNat + (evs.countP (Event.isFor fd) + 0 + 0) +
      s.workers fd = s.tally fd
    rw [hold, ← hcount]
    omega
  refine hs.move howned rfl rfl rfl (.refl _) (fun fd => (harmed fd).2) (by rw [hm]; rfl)
    (fun fd htoken => ?_) (fun fd => (htally fd).le) (fun fd _ _ => (htally fd).ge) (by simp)
    (by simp [hm])
  -- a delivered event comes from an open descriptor
  have hcount := (harmed fd).1
  have htoken : 1 ≤ evs.countP (Event.isFor fd) := htoken
  have hopen : s.armed fd = true := by
    cases hold : s.armed fd with
    | true => rfl
    | false => rw [hold, Bool.toNat_false] at hcount; omega
  show (owner { s with files } fd).isSome = true
  rw [howner, owner]
  cases hfile : s.files fd with
  | none => rw [armed, registration, hfile] at hopen; cases hopen
  | some file => rfl

theorem Single.accepted {s : HttpServer Q} (hs : Single s) {fd : Fd} {peerIp : Bytes}
    {rest : List Event} (hm : s.main = .accept rest) (hfree : s.files fd = none)
    (hsafe : ∀ t ∈ s.queue ++ s.tasks, t.fd = fd → t.pc.active = false)
    (howned : Owned { s with
      files := Function.update s.files fd (some { owner := s.next })
      latest := Function.update s.latest fd (some s.next)
      main := .register fd peerIp rest }) :
    Single { s with
      files := Function.update s.files fd (some { owner := s.next })
      latest := Function.update s.latest fd (some s.next)
      main := .register fd peerIp rest } := by
  generalize hs' : ({ s with
      files := Function.update s.files fd (some { owner := s.next })
      latest := Function.update s.latest fd (some s.next)
      main := .register fd peerIp rest } : HttpServer Q) = s' at howned
  have hmain : s'.main = .register fd peerIp rest := by rw [← hs']
  have hconn : s'.connections = s.connections := by rw [← hs']
  have hconns : s'.conns = s.conns := by rw [← hs']
  have hworkers : s'.workers = s.workers := by rw [← hs']; rfl
  have hnone : s.registration fd = none := by rw [registration, hfree]; rfl
  have hreg : s'.registration = s.registration := by
    rw [← hs']
    funext fd'
    simp only [registration]
    by_cases hfd : fd' = fd
    · subst hfd
      rw [Function.update_self, hfree]
      rfl
    · rw [Function.update_of_ne hfd]
  have hlatest : ∀ fd', fd' ≠ fd → s'.latest fd' = s.latest fd' := by
    intro fd' hfd
    rw [← hs']
    exact Function.update_of_ne hfd _ _
  have hclosed : s.owner fd = none := by rw [owner, hfree]; rfl
  have howner : s'.owner = Function.update s.owner fd (some s.next) := by
    rw [← hs']
    exact owner_update s fd _
  -- the accepted descriptor gets one token, that of the main thread
  have htally : ∀ fd', s'.tally fd' = s.tally fd' + if fd = fd' then 1 else 0 := by
    intro fd'
    have harmed : s'.armed fd' = s.armed fd' := by rw [armed, hreg, armed]
    simp only [tally, harmed, hworkers, hmain, hm, Main.tokens, Main.pending, Main.accepting,
      Main.handling, Option.some.injEq, reduceCtorEq, if_false]
    omega
  -- the number is free: there is no token of it
  have hzero : s.tally fd = 0 := by
    have htokens : s.main.tokens fd = 0 := by
      by_contra htokens
      have hopen := hs.live fd (Nat.one_le_iff_ne_zero.2 htokens)
      rw [hclosed] at hopen
      cases hopen
    have hidle : s.workers fd = 0 := by
      refine List.countP_eq_zero.2 fun t ht hworks => ?_
      simp only [Task.worksOn, Bool.and_eq_true, decide_eq_true_eq] at hworks
      rw [hsafe t ht hworks.1] at hworks
      exact Bool.false_ne_true hworks.2
    rw [tally, armed, hnone, htokens, hidle]
    rfl
  refine .of_oneToken howned (fun t ht hactive => ?_) (fun fd' htoken => ?_) (fun fd' => ?_) ?_ ?_
  · subst hs'
    refine (hlatest _ ?_).trans (hs.attached t ht hactive)
    intro hfd
    rw [hsafe t ht hfd] at hactive
    cases hactive
  · rw [howner]
    by_cases hfd : fd' = fd
    · rw [hfd, Function.update_self]
      rfl
    · rw [Function.update_of_ne hfd]
      refine hs.live fd' ?_
      simpa [hmain, hm, Main.tokens, Main.pending, Main.accepting, Main.handling, Ne.symm hfd]
        using htoken
  · by_cases hfd : fd' = fd
    · -- there is no connection yet
      subst hfd
      refine .of_gone ?_ ?_ fun _ => by rw [hreg, hnone]
      · rw [hconn, ← Option.not_isSome_iff_eq_none, Option.isSome_iff_exists]
        rintro ⟨c, hc⟩
        rw [hs.owned.table fd' c hc] at hclosed
        cases hclosed
      · rw [htally, hzero, if_pos rfl]
    · have hsame : s'.tally fd' = s.tally fd' := by rw [htally, if_neg (Ne.symm hfd)]; rfl
      refine (hs.oneToken fd').frame (fun c hc => ?_) hsame.le (by rw [hreg])
        ?_ fun hnone _ => ?_
      · rw [hconn] at hc
        exact ⟨hc, by rw [hconns], hsame.ge⟩
      · simp [hmain, hm, Main.accepting, Ne.symm hfd]
      · exact ⟨hworkers ▸ hnone, by simp [hm]⟩
  · rw [hmain]
    rintro _ _ _ _ (h | h) <;> cases h
  · subst hs'
    exact hs.rearm

theorem worker_le {s : HttpServer Q} {t : Task}
    (ht : t ∈ s.queue ++ s.tasks) (hactive : t.pc.active = true) : 1 ≤ s.workers t.fd := by
  refine List.countP_pos_iff.2 ⟨t, ht, ?_⟩
  simp [Task.worksOn, hactive]

/-- Two tasks do not work on one descriptor. -/
theorem Single.only_worker {s : HttpServer Q} (hs : Single s) {t t' : Task} {others : List Task}
    (hperm : (s.queue ++ s.tasks).Perm (t :: others)) (hactive : t.pc.active = true)
    (ht' : t' ∈ others) (hfd : t'.fd = t.fd) : t'.pc.active = false := by
  by_contra hactive'
  have hother : 0 < others.countP (Task.worksOn t.fd) :=
    List.countP_pos_iff.2 ⟨t', ht', by simpa [Task.worksOn, hfd] using hactive'⟩
  have hworkers : s.workers t.fd = others.countP (Task.worksOn t.fd) + 1 := by
    rw [workers, hperm.countP_eq, List.countP_cons_of_pos]
    simpa [Task.worksOn] using hactive
  have hunique := hs.unique t.fd
  unfold tally at hunique
  omega

/-- A connection at its re-arm is not touched by the main thread that holds another token. -/
theorem Single.rearm_ne {s : HttpServer Q} (hs : Single s) {fd : Fd} {c : ConnId}
    (hlatest : s.latest fd = some c) (htokens : 1 ≤ s.main.tokens fd) {t : Task}
    (ht : t ∈ s.queue ++ s.tasks) {c' : ConnId} {i : Interest} {record : Option Answer}
    (hpc : t.pc = .rearm c' i record) : c' ≠ c := by
  rintro rfl
  have howner := (hs.owned.task t ht).conn c' (by rw [hpc]; rfl)
  have hfd : t.fd = fd := by
    refine hs.owned.inj t.fd fd c' ?_ hlatest
    rw [hs.attached t ht (by rw [hpc]; rfl), howner]
  have hworker := worker_le ht (by rw [hpc]; rfl)
  have hunique := hs.unique fd
  rw [hfd] at hworker
  unfold tally at hunique
  omega

theorem Single.begin {s : HttpServer Q} (hs : Single s) {fd : Fd} {c : ConnId} {i : Interest}
    {rest : List Event} (hm : s.main = .begin fd c i rest)
    (howned : Owned
      { s.setConn c ((s.conns c).setProcessing true) with main := .enqueue fd c i rest }) :
    Single { s.setConn c ((s.conns c).setProcessing true) with main := .enqueue fd c i rest } := by
  have hc := hs.begun fd c i rest (.inl hm)
  have htokens : 1 ≤ s.main.tokens fd := by
    rw [hm]
    simp [Main.tokens, Main.handling]
  have hone := hs.oneToken fd
  have hconns : ∀ c', c' ≠ c →
      (s.setConn c ((s.conns c).setProcessing true)).conns c' = s.conns c' :=
    fun c' hne => Function.update_of_ne hne _ _
  have htally : ∀ fd', tally
      { s.setConn c ((s.conns c).setProcessing true) with main := .enqueue fd c i rest } fd' =
        s.tally fd' := by
    intro fd'
    rw [tally, tally, hm]
    rfl
  refine .of_oneToken howned hs.attached (fun fd' htoken => hs.live fd' (by rw [hm]; exact htoken))
    (fun fd' => ?_) ?_ fun t ht c' i' record hpc => ?_
  · by_cases hfd : fd' = fd
    · subst hfd
      refine ⟨(htally fd').trans_le hone.unique,
        fun c' h => (hone.held c' h).trans (htally fd').ge, fun c' h => ?_, fun c' h => ?_,
        by rintro ⟨⟩, fun c' _ _ hmain => absurd rfl (hmain c i rest)⟩
      · obtain rfl : c = c' := Option.some.inj (hc.symm.trans h)
        change (Function.update s.conns c _ c).closed = false
        rw [Function.update_self]
        exact hone.opened c hc
      · exact .inr ((hone.entered c' h).resolve_left (by simp [hm, Main.accepting]))
    · refine (hs.oneToken fd').frame (fun c' h => ?_) (htally fd').le rfl
        (by simp [hm, Main.accepting]) fun h _ => ⟨h, by simp [hm]⟩
      refine ⟨h, hconns c' ?_, (htally fd').ge⟩
      rintro rfl
      exact hfd (hs.owned.inj fd' fd c' (hs.latest h) (hs.latest hc))
  · rintro fd' c' i' rest' (h | h) <;> cases h
    exact hc
  · have hold := hs.rearm t ht c' i' record hpc
    change ((s.setConn c _).conns c').closed = true ∨ ((s.setConn c _).conns c').processing = false
    rwa [hconns c' (hs.rearm_ne (hs.latest hc) htokens ht hpc)]

theorem Single.enqueue {s : HttpServer Q} (hs : Single s) {fd : Fd} {c : ConnId} {i : Interest}
    {rest : List Event} (hm : s.main = .enqueue fd c i rest)
    (howned : Owned { s with queue := s.queue ++ [⟨fd, c, beginPc i⟩], main := .events rest }) :
    Single { s with queue := s.queue ++ [⟨fd, c, beginPc i⟩], main := .events rest } := by
  have hactive : (beginPc i).active = true := by cases i <;> rfl
  have hperm : (s.queue ++ [(⟨fd, c, beginPc i⟩ : Task)] ++ s.tasks).Perm
      ((⟨fd, c, beginPc i⟩ : Task) :: (s.queue ++ s.tasks)) := by
    rw [List.append_assoc]
    exact List.perm_middle
  have hworkers : ∀ fd', workers
      { s with queue := s.queue ++ [⟨fd, c, beginPc i⟩], main := .events rest } fd' =
        s.workers fd' + if fd = fd' then 1 else 0 := by
    intro fd'
    rw [workers, hperm.countP_eq, List.countP_cons, workers]
    simp [Task.worksOn, hactive]
  -- the token of the main thread becomes the token of the task
  have htally : ∀ fd', tally
      { s with queue := s.queue ++ [⟨fd, c, beginPc i⟩], main := .events rest } fd' =
        s.tally fd' := by
    intro fd'
    rw [tally, tally, hworkers, hm]
    simp only [Main.tokens, Main.pending, Main.accepting, Main.handling, Option.some.injEq,
      reduceCtorEq, if_false]
    change (s.armed fd').toNat + _ + _ = _
    omega
  refine .of_oneToken howned (fun t ht hactive => ?_) (fun fd' htoken => ?_) (fun fd' => ?_) ?_
    fun t ht c' i' record hpc => ?_
  · rcases List.mem_cons.1 (hperm.mem_iff.1 ht) with rfl | ht
    · exact (hs.owned.main.begin fd c i rest (.inr hm)).2
    · exact hs.attached t ht hactive
  · refine hs.live fd' (Nat.le_trans htoken ?_)
    rw [hm]
    exact Nat.le_add_right _ _
  · refine (hs.oneToken fd').frame (fun c' h => ⟨h, rfl, (htally fd').ge⟩) (htally fd').le rfl
      (by simp [hm, Main.accepting]) fun hnone _ => ?_
    rw [hworkers] at hnone
    refine ⟨by omega, ?_⟩
    rw [hm]
    rintro _ _ _ ⟨⟩
    simp at hnone
  · rintro fd' c' i' rest' (h | h) <;> cases h
  · rcases List.mem_cons.1 (hperm.mem_iff.1 ht) with rfl | ht
    · cases i <;> cases hpc
    · exact hs.rearm t ht c' i' record hpc

theorem Single.add {s : HttpServer Q} (hs : Single s) {fd : Fd} {rest : List Event}
    (hm : s.main = .add fd rest)
    (howned : Owned { s.epollAdd fd .input with main := .accept rest }) :
    Single { s.epollAdd fd .input with main := .accept rest } := by
  have hfresh : s.registration fd = none := hs.fresh fd (by rw [hm]; rfl)
  have hone := hs.oneToken fd
  generalize hs' : ({ s.epollAdd fd .input with main := .accept rest } : HttpServer Q) = s'
    at howned
  have hmain : s'.main = .accept rest := by rw [← hs']
  have hconn : s'.connections = s.connections := by rw [← hs']; rfl
  have hconns : s'.conns = s.conns := by rw [← hs']; rfl
  have hworkers : s'.workers = s.workers := by rw [← hs']; rfl
  have howner : s'.owner = s.owner := by
    rw [← hs']
    exact owner_updateFile s fd fun _ => rfl
  have hreg : s'.registration = Function.update s.registration fd
      ((s.files fd).map fun _ => some .input) := by
    rw [← hs']
    refine (registration_updateFile s fd _).trans ?_
    congr 1
    cases hf : s.files fd with
    | none => rfl
    | some f =>
      rw [registration, hf] at hfresh
      simp [show f.epoll = none from hfresh]
  have hregne : ∀ fd', fd' ≠ fd → s'.registration fd' = s.registration fd' := by
    intro fd' hfd
    rw [hreg, Function.update_of_ne hfd]
  have hne : ∀ fd', fd' ≠ fd → s'.tally fd' = s.tally fd' := by
    intro fd' hfd
    simp only [tally, armed, hregne fd' hfd, hworkers, hmain, hm, Main.tokens, Main.pending,
      Main.accepting, Main.handling, Option.some.injEq, Ne.symm hfd, reduceCtorEq, if_false]
  -- the token of the main thread goes to `epoll`
  have hself : s'.tally fd + 1 = s.tally fd + (s'.armed fd).toNat := by
    have harmed : s.armed fd = false := by rw [armed, hfresh]; rfl
    simp only [tally, harmed, hworkers, hmain, hm, Main.tokens, Main.pending,
      Main.accepting, Main.handling, reduceCtorEq, if_false, if_true, Bool.toNat_false]
    omega
  have hle : s'.tally fd ≤ s.tally fd := by
    have hbool := Bool.toNat_le (s'.armed fd)
    omega
  have hopen : ∀ c, s.connections.lookup fd = some c → s'.registration fd = some (some .input) := by
    intro c hc
    obtain ⟨f, hf, -⟩ := Option.map_eq_some_iff.1 (hs.owned.table fd c hc)
    rw [hreg, Function.update_self, hf]
    rfl
  refine .of_oneToken howned (by subst hs'; exact hs.attached) (fun fd' htoken => ?_)
    (fun fd' => ?_) ?_ (by subst hs'; exact hs.rearm)
  · rw [howner]
    refine hs.live fd' (Nat.le_trans htoken ?_)
    rw [hmain, hm]
    exact Nat.add_le_add_right (Nat.add_le_add_left (Nat.zero_le _) _) _
  · by_cases hfd : fd' = fd
    · subst hfd
      refine ⟨hle.trans hone.unique, fun c hc => ?_, ?_, fun c hc => .inr ?_, ?_,
        fun c hc hnone _ => ?_⟩
      · have hc : s.connections.lookup fd' = some c := hconn ▸ hc
        have harmed : s'.armed fd' = true := by rw [armed, hopen c hc]; rfl
        rw [harmed] at hself
        exact (hone.held c hc).trans (Nat.le_of_add_le_add_right hself.ge)
      · rw [hconn, hconns]
        exact hone.opened
      · rw [hopen c (hconn ▸ hc)]
        rfl
      · rw [hmain]
        rintro ⟨⟩
      · rw [hconns]
        exact hone.idle c (hconn ▸ hc) (hworkers ▸ hnone) (by simp [hm])
    · refine (hs.oneToken fd').frame (fun c hc => ?_) (hne fd' hfd).le
        (by rw [hregne fd' hfd]) ?_ fun hnone _ => ⟨hworkers ▸ hnone, by simp [hm]⟩
      · exact ⟨hconn ▸ hc, by rw [hconns], (hne fd' hfd).ge⟩
      · simp [hmain, hm, Main.accepting, Ne.symm hfd]
  · rw [hmain]
    rintro _ _ _ _ (h | h) <;> cases h

/-- All connections are closed; there is nobody left to own. -/
theorem Single.shutdown {s : HttpServer Q} (hs : Single s) (hm : s.main = .shutdown)
    (howned : Owned { s.closeAll with main := .stopped }) :
    Single { s.closeAll with main := .stopped } := by
  have hle : ∀ fd, tally { s.closeAll with main := .stopped } fd ≤ s.tally fd := by
    intro fd
    have harmed : (armed { s.closeAll with main := .stopped } fd).toNat ≤ (s.armed fd).toNat := by
      simp only [armed, registration, closeAll]
      split_ifs
      · exact Nat.zero_le _
      · exact le_rfl
    rw [tally, tally, hm]
    exact Nat.add_le_add_right (Nat.add_le_add_right harmed _) _
  refine .of_oneToken howned hs.attached (fun fd htoken => absurd htoken (Nat.not_succ_le_zero 0))
    (fun fd => ?_) ?_ fun t ht c i record hpc => ?_
  · exact .of_gone (Finmap.lookup_empty fd) ((hle fd).trans (hs.unique fd)) (by rintro ⟨⟩)
  · rintro fd c i rest (h | h) <;> cases h
  · simp only [closeAll]
    split_ifs
    · exact .inl rfl
    · exact hs.rearm t ht c i record hpc

theorem Single.no_worker {s : HttpServer Q} (hs : Single s) (fd : Fd)
    (htokens : 1 ≤ s.main.tokens fd) : s.workers fd = 0 := by
  have hunique := hs.unique fd
  unfold tally at hunique
  omega

/-! ### What a task leaves behind -/

/-- The main thread is not accepting a descriptor that a task works on. -/
theorem Single.not_accepting {s : HttpServer Q} (hs : Single s) {fd : Fd}
    (hworkers : 1 ≤ s.workers fd) : s.main.accepting ≠ some fd := by
  intro haccepting
  have htokens : 1 ≤ s.main.tokens fd := by
    simp only [Main.tokens, haccepting, if_true]
    omega
  rw [hs.no_worker fd htokens] at hworkers
  omega

/-- The tasks at work on a descriptor before and after a step of one of its tasks. -/
theorem workers_step {s s' : HttpServer Q} {t : Task} {others : List Task}
    {pc : Option (Pc ConnId)} (hperm : (s.queue ++ s.tasks).Perm (t :: others))
    (hperm' : (s'.queue ++ s'.tasks).Perm ((pc.map fun pc => { t with pc }).toList ++ others)) :
    s.workers t.fd = others.countP (Task.worksOn t.fd) + t.pc.active.toNat ∧
      s'.workers t.fd = others.countP (Task.worksOn t.fd) + (pc.any Pc.active).toNat := by
  constructor
  · rw [workers, hperm.countP_eq, List.countP_cons]
    cases hactive : t.pc.active <;> simp [Task.worksOn, hactive]
  · rw [workers, hperm'.countP_eq, List.countP_append, Nat.add_comm]
    cases pc with
    | none => rfl
    | some q => cases hactive : q.active <;> simp [Task.worksOn, hactive]

/-- The connection has left the table. -/
theorem Kept.of_gone {s s' : HttpServer Q} {fd : Fd} (hgone : s'.connections.lookup fd = none)
    (htally : s'.tally fd ≤ s.tally fd) (haccept : s'.main.accepting ≠ some fd) :
    Kept s s' fd := by
  have hvacuous : ∀ {P : Prop} {c}, s'.connections.lookup fd = some c → P := by
    intro P c hc
    rw [hgone] at hc
    cases hc
  exact ⟨htally, fun c hc => hvacuous hc, fun c hc => hvacuous hc, fun c hc => hvacuous hc,
    fun hm => absurd hm haccept, fun c hc => hvacuous hc⟩

/-- The task goes on, and keeps its token. -/
theorem Single.kept_goOn {s s' : HttpServer Q} (hs : Single s) {fd : Fd}
    (htable : ∀ c, s'.connections.lookup fd = some c →
      s.connections.lookup fd = some c ∧ (s'.conns c).closed = (s.conns c).closed)
    (hmain : s'.main = s.main) (hreg : s'.registration fd = s.registration fd)
    (hone : 1 ≤ s.workers fd) (hworkers : s'.workers fd = s.workers fd) : Kept s s' fd := by
  have htally : s'.tally fd = s.tally fd := by
    rw [tally, tally, armed, armed, hreg, hmain, hworkers]
  have haccept := hs.not_accepting hone
  refine ⟨htally.le, fun c hc => ?_, fun c hc => ?_, fun c hc => .inr ?_,
    fun hm => absurd (hmain ▸ hm) haccept, fun c hc hnone => ?_⟩
  · exact (hs.held fd c (htable c hc).1).trans_eq htally.symm
  · exact (htable c hc).2.trans (hs.opened fd c (htable c hc).1)
  · rw [hreg]
    exact (hs.entered fd c (htable c hc).1).resolve_left haccept
  · omega

/-- The task gives its token back to `epoll`. -/
theorem Single.kept_rearm {s s' : HttpServer Q} (hs : Single s) {fd : Fd} {i : Interest}
    (htable : ∀ c, s'.connections.lookup fd = some c →
      s.connections.lookup fd = some c ∧ (s'.conns c).closed = (s.conns c).closed)
    (hmain : s'.main = s.main)
    (hreg : s'.registration fd = (s.registration fd).map fun _ => some i)
    (hworkers : s'.workers fd + 1 = s.workers fd)
    (hprocessing : ∀ c, s'.connections.lookup fd = some c → (s'.conns c).closed = false →
      (s'.conns c).processing = false) : Kept s s' fd := by
  have haccept := hs.not_accepting (hworkers ▸ Nat.le_add_left 1 _)
  have hregistered : ∀ c, s'.connections.lookup fd = some c →
      s'.registration fd = some (some i) := by
    intro c hc
    have hsome := (hs.entered fd c (htable c hc).1).resolve_left haccept
    obtain ⟨x, hx⟩ := Option.isSome_iff_exists.1 hsome
    rw [hreg, hx]
    rfl
  have hopened : ∀ c, s'.connections.lookup fd = some c → (s'.conns c).closed = false :=
    fun c hc => (htable c hc).2.trans (hs.opened fd c (htable c hc).1)
  refine ⟨?_, fun c hc => ?_, hopened, fun c hc => .inr ?_,
    fun hm => absurd (hmain ▸ hm) haccept, fun c hc _ _ => hprocessing c hc (hopened c hc)⟩
  · have hone := Bool.toNat_le (s'.armed fd)
    rw [tally, tally, hmain]
    omega
  · have harmed : s'.armed fd = true := by
      rw [armed, hregistered c hc]
      rfl
    rw [tally, harmed, Bool.toNat_true]
    omega
  · rw [hregistered c hc]
    rfl

/-! ### Nobody is stranded -/

/-- Who holds the token of a registered descriptor. -/
inductive Holder (s : HttpServer Q) (fd : Fd) (c : ConnId) : Prop
  | armed : s.armed fd = true → Holder s fd c
  | pending (kind : Kind) : .client fd kind ∈ s.main.pending → Holder s fd c
  | handling : s.main.handling = some fd → Holder s fd c
  | task (t : Task) : t ∈ s.queue ++ s.tasks → t.fd = fd → t.owner = c → t.pc.active = true →
      Holder s fd c

theorem Single.holder {s : HttpServer Q} (hs : Single s) {fd : Fd} {c : ConnId}
    (hc : s.connections.lookup fd = some c) (haccept : s.main.accepting ≠ some fd) :
    Holder s fd c := by
  have hheld := hs.held fd c hc
  by_cases harmed : s.armed fd = true
  · exact .armed harmed
  by_cases hhandling : s.main.handling = some fd
  · exact .handling hhandling
  by_cases hpending : s.main.pending.countP (Event.isFor fd) = 0
  · have hworkers : 1 ≤ s.workers fd := by
      simpa [tally, Main.tokens, hpending, haccept, hhandling, harmed] using hheld
    obtain ⟨t, ht, hworks⟩ := List.countP_pos_iff.1 hworkers
    simp only [Task.worksOn, Bool.and_eq_true, decide_eq_true_eq] at hworks
    obtain ⟨rfl, hactive⟩ := hworks
    have howner := hs.attached t ht hactive
    rw [hs.latest hc] at howner
    exact .task t ht rfl (Option.some.inj howner).symm hactive
  · obtain ⟨ev, hev, hfor⟩ := List.countP_pos_iff.1 (Nat.pos_of_ne_zero hpending)
    cases ev with
    | listen => cases hfor
    | client fd' kind =>
      simp only [Event.isFor, decide_eq_true_eq] at hfor
      exact .pending kind (hfor ▸ hev)

/-- Two tasks do not work for one connection. -/
theorem Single.one_worker {s : HttpServer Q} (hs : Single s) (c : ConnId) :
    (s.queue ++ s.tasks).countP (fun t => t.owner = c && t.pc.active) ≤ 1 := by
  by_cases hany : ∃ t ∈ s.queue ++ s.tasks, t.owner = c ∧ t.pc.active = true
  · obtain ⟨t₀, ht₀, rfl, hactive₀⟩ := hany
    have hmono : (s.queue ++ s.tasks).countP (fun t => t.owner = t₀.owner && t.pc.active) ≤
        s.workers t₀.fd := by
      refine List.countP_mono_left fun t ht hp => ?_
      simp only [Bool.and_eq_true, decide_eq_true_eq] at hp
      have hlatest := hs.attached t ht hp.2
      rw [hp.1] at hlatest
      have hfd := hs.owned.inj t.fd t₀.fd t₀.owner hlatest (hs.attached t₀ ht₀ hactive₀)
      simp [Task.worksOn, hfd, hp.2]
    have hunique := hs.unique t₀.fd
    unfold tally at hunique
    omega
  · rw [List.countP_eq_zero.2]
    · exact Nat.zero_le 1
    · intro t ht hp
      simp only [Bool.and_eq_true, decide_eq_true_eq] at hp
      exact hany ⟨t, ht, hp⟩

section Step

variable [PriorityQueue Q (TimerHeap.Node Fd ℕ) TimerHeap.later]
variable {reply : Bytes → Answer} {idle : ℕ}

theorem Single.register {s : HttpServer Q} (hs : Single s) {fd : Fd} {peerIp : Bytes}
    {rest : List Event} (hm : s.main = .register fd peerIp rest)
    (howned : Owned { s.register idle fd peerIp with main := .add fd rest }) :
    Single { s.register idle fd peerIp with main := .add fd rest } := by
  obtain ⟨hlatest, -⟩ := hs.owned.main.register fd peerIp rest hm
  have htokens : 1 ≤ s.main.tokens fd := by
    rw [hm]
    simp [Main.tokens, Main.accepting, Main.handling]
  have hone := hs.oneToken fd
  have htally : ∀ fd', tally { s.register idle fd peerIp with main := .add fd rest } fd' =
      s.tally fd' := by
    intro fd'
    rw [tally, tally, hm]
    rfl
  have hconns : ∀ c, c ≠ s.next → (s.register idle fd peerIp).conns c = s.conns c :=
    fun c hc => Function.update_of_ne hc _ _
  have hlookup : (s.register idle fd peerIp).connections.lookup fd = some s.next :=
    Finmap.lookup_insert _
  have hnew : ∀ {c}, (s.register idle fd peerIp).connections.lookup fd = some c →
      (s.register idle fd peerIp).conns c = { fd, peerIp } := by
    intro c hc
    obtain rfl : s.next = c := Option.some.inj (hlookup.symm.trans hc)
    exact Function.update_self _ _ _
  refine .of_oneToken howned hs.attached (fun fd' htoken => hs.live fd' (by rw [hm]; exact htoken))
    (fun fd' => ?_) ?_ fun t ht c i record hpc => ?_
  · by_cases hfd : fd' = fd
    · subst hfd
      refine ⟨(htally fd').trans_le hone.unique,
        fun c hc => ?_, fun c hc => ?_, fun c hc => .inl rfl,
        fun _ => hone.fresh (by rw [hm]; rfl), fun c hc _ _ => ?_⟩
      · rw [htally]
        unfold tally
        omega
      · exact congrArg Connection.closed (hnew hc)
      · exact congrArg Connection.processing (hnew hc)
    · refine (hs.oneToken fd').frame (fun c hc => ?_) (htally fd').le rfl (by rw [hm]; rfl)
        fun hnone _ => ⟨hnone, by simp [hm]⟩
      have hc : s.connections.lookup fd' = some c := by
        rwa [← Finmap.lookup_insert_of_ne s.connections hfd]
      refine ⟨hc, hconns c ?_, (htally fd').ge⟩
      rintro rfl
      exact hfd (hs.owned.inj fd' fd s.next (hs.latest hc) hlatest)
  · rintro fd' c i rest' (h | h) <;> cases h
  · have hne := hs.rearm_ne hlatest htokens ht hpc
    change ((s.register idle fd peerIp).conns c).closed = true ∨
      ((s.register idle fd peerIp).conns c).processing = false
    rw [hconns c hne]
    exact hs.rearm t ht c i record hpc

theorem Single.close {s s₁ : HttpServer Q} (hs : Single s) {fd : Fd} {pc : Pc ConnId}
    {caller : Caller} {pc' : Option (Pc ConnId)} (hm : s.main = .closing fd pc caller)
    (h : s.perform idle fd (pc.code reply) .done = some (s₁, pc'))
    (howned : Owned
      { s₁ with main := pc'.elim caller.main fun pc' => .closing fd pc' caller }) :
    Single { s₁ with main := pc'.elim caller.main fun pc' => .closing fd pc' caller } := by
  have hf := perform_frame h
  have hpc := hs.owned.main.closing fd pc caller hm
  have hgone : s₁.connections.lookup fd = none := by
    rcases hpc with rfl | hpast
    · exact (perform_close (.inl rfl) h).2 rfl
    · exact hf.gone (hs.owned.main.gone fd pc caller hm hpast)
  have hreg := perform_close_registration hpc h
  have hconn : ∀ c, pc.conn? = some c → s.latest fd = some c ∧ (s₁.conns c).closed = true := by
    intro c hconn
    rcases hpc with rfl | hpast
    · cases hconn
    · cases pc <;> cases hpast <;> cases hconn
      exact ⟨hs.owned.main.conn fd c caller hm, perform_markClosed h⟩
  generalize hm' : (pc'.elim caller.main fun pc' => Main.closing fd pc' caller) = m' at howned
  -- the token of an event is gone when its close is finished
  have htokens : ∀ fd', m'.tokens fd' ≤ s.main.tokens fd' ∧
      (fd' ≠ fd → m'.tokens fd' = s.main.tokens fd') := by
    intro fd'
    rw [hm, ← hm']
    cases pc' with
    | some q => cases caller <;> exact ⟨le_rfl, fun _ => rfl⟩
    | none =>
      cases caller with
      | idle rest => exact ⟨le_rfl, fun _ => rfl⟩
      | events rest =>
        refine ⟨Nat.le_add_right _ _, fun hfd => ?_⟩
        simp [Main.tokens, Option.elim, Caller.main, Main.pending, Main.accepting, Main.handling,
          Ne.symm hfd]
  have haccept : m'.accepting = none := by
    rw [← hm']
    cases pc' <;> cases caller <;> rfl
  have hworkers : ∀ fd', workers { s₁ with main := m' } fd' = s.workers fd' := by
    intro fd'
    have htasks : s₁.queue ++ s₁.tasks = s.queue ++ s.tasks := by rw [perform_eq h]
    exact congrArg _ htasks
  have hle : ∀ fd', tally { s₁ with main := m' } fd' ≤ s.tally fd' := by
    intro fd'
    have harmed : (s₁.armed fd').toNat ≤ (s.armed fd').toNat := by
      by_cases hfd : fd' = fd
      · subst hfd
        rcases hreg with hreg | hreg <;> simp [armed, hreg]
      · rw [armed, perform_registration_ne h hfd, armed]
    rw [tally, tally, hworkers]
    exact Nat.add_le_add_right (Nat.add_le_add harmed (htokens fd').1) _
  refine .of_oneToken howned (fun t ht hactive => ?_) (fun fd' htoken => ?_) (fun fd' => ?_) ?_
    fun t ht c i record htpc => ?_
  · change s₁.latest t.fd = some t.owner
    rw [perform_eq h] at ht ⊢
    exact hs.attached t ht hactive
  · have htoken : 1 ≤ m'.tokens fd' := htoken
    have hopen := hs.live fd' (htoken.trans (htokens fd').1)
    show (s₁.owner fd').isSome = true
    rw [(perform_effect h).owner]
    split_ifs with hclose
    · -- the only token of the descriptor is gone when it is closed
      have hfd : fd' ≠ fd := by
        rintro rfl
        refine Nat.lt_irrefl 0 (htoken.trans_eq ?_)
        have hlast := hs.unique fd'
        rw [tally, hm] at hlast
        subst hclose
        cases handler_cases h
        rw [← hm']
        cases caller with
        | idle rest => rfl
        | events rest =>
          simp only [Main.tokens, Main.pending, Main.accepting, Main.handling, Option.elim,
            Caller.main, reduceCtorEq, if_false, if_true] at hlast ⊢
          omega
      rwa [Function.update_of_ne hfd]
    · exact hopen
  · by_cases hfd : fd' = fd
    · subst hfd
      refine .of_gone hgone ((hle fd').trans (hs.unique fd')) fun haccepting => ?_
      rw [haccept] at haccepting
      cases haccepting
    · have hreg := perform_registration_ne h hfd
      refine (hs.oneToken fd').frame (fun c hc => ?_) (hle fd')
        (congrArg Option.isSome hreg) (by rw [haccept, hm]; rfl)
        fun hnone _ => ⟨hworkers fd' ▸ hnone, by simp [hm]⟩
      have hc := hf.table fd' c hc
      refine ⟨hc, perform_conns h fun hown => hfd ?_, ?_⟩
      · exact hs.owned.inj fd' fd c (hs.latest hc) (hconn c hown).1
      · rw [tally, tally, hworkers]
        change _ ≤ (s₁.armed fd').toNat + m'.tokens fd' + _
        rw [armed, armed, hreg, (htokens fd').2 hfd]
  · rintro fd' c i rest (rfl | rfl) <;> cases pc' <;> cases caller <;> cases hm'
  · have hold := hs.rearm t (by rw [perform_eq h] at ht; exact ht) c i record htpc
    change (s₁.conns c).closed = true ∨ (s₁.conns c).processing = false
    by_cases hown : pc.conn? = some c
    · exact .inl (hconn c hown).2
    · rwa [perform_conns h hown]

theorem Single.main_step {s s' : HttpServer Q} {r : MainSys} (hs : Single s)
    (h : MainCase reply idle s r s') (hfree : FreeNumber s (.main r)) : Single s' := by
  have howned : Owned s' := hs.owned.main_step h hfree.reuseSafe
  have hsame : ∀ {m m' : Main}, (∀ fd, m'.tokens fd = m.tokens fd) →
      (∀ fd, m'.tokens fd ≤ m.tokens fd) ∧
        ∀ fd c, s.connections.lookup fd = some c → m.tokens fd ≤ m'.tokens fd :=
    fun h => ⟨fun fd => (h fd).le, fun fd _ _ => (h fd).ge⟩
  have hgoto : ∀ {m m' : Main}, s.main = m → Owned { s with main := m' } →
      m'.accepting = m.accepting → (∀ fd, m'.tokens fd = m.tokens fd) →
      (∀ fd c i rest, m' = .begin fd c i rest ∨ m' = .enqueue fd c i rest →
        s.connections.lookup fd = some c) →
      (∀ fd c i rest, m ≠ .enqueue fd c i rest) → Single { s with main := m' } :=
    fun hm howned haccept htokens =>
      hs.goto hm howned haccept (fun fd => (htokens fd).le) fun fd _ _ => (htokens fd).ge
  cases h with
  | loop hm =>
    refine hgoto hm howned ?_ (fun fd => ?_) ?_ (by simp) <;> split_ifs <;>
      simp [Main.accepting, Main.tokens, Main.pending, Main.handling]
  | wait hm hev => exact hs.wait hm hev howned
  | interrupted hm => exact hgoto hm howned rfl (fun _ => rfl) (by simp) (by simp)
  | failed hm => exact hgoto hm howned rfl (fun _ => rfl) (by simp) (by simp)
  | batchEnd hm => exact hgoto hm howned rfl (fun _ => rfl) (by simp) (by simp)
  | listen hm =>
    refine hgoto hm howned rfl (fun fd => ?_) (by simp) (by simp)
    simp [Main.tokens, Main.pending, Event.isFor, Main.accepting, Main.handling]
  | hangup hm =>
    refine hgoto hm howned rfl (fun fd => ?_) (by simp) (by simp)
    simp [Main.tokens, Main.pending, Event.isFor, Main.accepting, Main.handling, List.countP_cons]
  | ready hm =>
    refine hgoto hm howned rfl (fun fd => ?_) (by simp) (by simp)
    simp [Main.tokens, Main.pending, Event.isFor, Main.accepting, Main.handling, List.countP_cons]
  | accepted hm hr hnone =>
    subst hr
    exact hs.accepted hm hnone hfree howned
  | refused hm => exact hgoto hm howned rfl (fun _ => rfl) (by simp) (by simp)
  | register hm => exact hs.register hm howned
  | add hm => exact hs.add hm howned
  | @gone fd i rest hm hnone =>
    refine hs.goto hm howned rfl (fun fd' => ?_) (fun fd' c hc => ?_) (by simp) (by simp) <;>
      simp only [Main.tokens, Main.pending, Main.accepting, Main.handling, reduceCtorEq, if_false]
    · omega
    · have hfd : fd ≠ fd' := by
        rintro rfl
        rw [hnone] at hc
        cases hc
      simp [hfd]
  | @dispatch fd c i rest hm hc =>
    refine hgoto hm howned rfl (fun _ => rfl) ?_ (by simp)
    rintro _ _ _ _ (h | h) <;> cases h
    exact hc
  | begin hm _ _ => exact hs.begin hm howned
  | @discard fd c i rest hm hor =>
    -- the event of a registered connection is never discarded
    have hc := hs.begun fd c i rest (.inl hm)
    have hworkers := hs.no_worker fd (by rw [hm]; simp [Main.tokens, Main.handling])
    rcases hor with hclosed | hprocessing
    · rw [hs.opened fd c hc] at hclosed
      cases hclosed
    · rw [hs.idle fd c hc hworkers (by simp [hm])] at hprocessing
      cases hprocessing
  | enqueue hm => exact hs.enqueue hm howned
  | close hm hperform => exact hs.close hm hperform howned
  | idle hm =>
    exact hs.goto hm howned rfl (fun _ => le_rfl) (fun _ _ _ => le_rfl) (by simp) (by simp)
  | idleEnd hm => exact hgoto hm howned rfl (fun _ => rfl) (by simp) (by simp)
  | idleNext hm => exact hgoto hm howned rfl (fun _ => rfl) (by simp) (by simp)
  | stop hm =>
    exact hs.goto hm howned rfl (fun _ => le_rfl) (fun _ _ _ => le_rfl) (by simp) (by simp)
  | join hm _ _ => exact hgoto hm howned rfl (fun _ => rfl) (by simp) (by simp)
  | shutdown hm => exact hs.shutdown hm howned

/-! ### Steps of a task -/

theorem Single.kept {s s₁ : HttpServer Q} (hs : Single s) {t : Task} {others tasks : List Task}
    {r : Sys} {pc : Option (Pc ConnId)}
    (hperm : (s.queue ++ s.tasks).Perm (t :: others))
    (hperm' : (s₁.queue ++ tasks).Perm ((pc.map fun pc => { t with pc }).toList ++ others))
    (h : s.perform idle t.fd (t.pc.code reply) r = some (s₁, pc)) :
    Kept s { s₁ with tasks } t.fd := by
  have hf := perform_frame h
  have ht : t ∈ s.queue ++ s.tasks := hperm.mem_iff.2 List.mem_cons_self
  have hself : t.pc.active = true → ∀ c, s.connections.lookup t.fd = some c → c = t.owner := by
    intro hactive c hc
    have hlatest := hs.latest hc
    rw [hs.attached t ht hactive] at hlatest
    exact (Option.some.inj hlatest).symm
  have hmain : s₁.main = s.main := by rw [perform_eq h]
  have htable : t.pc.pastErase = false → ∀ c, s₁.connections.lookup t.fd = some c →
      s.connections.lookup t.fd = some c ∧ (s₁.conns c).closed = (s.conns c).closed :=
    fun hpast c hc => ⟨hf.table t.fd c hc, perform_closed_eq h hpast c⟩
  obtain ⟨hworkers, hworkers'⟩ :
      s.workers t.fd = others.countP (Task.worksOn t.fd) + t.pc.active.toNat ∧
        workers { s₁ with tasks } t.fd =
          others.countP (Task.worksOn t.fd) + (pc.any Pc.active).toNat :=
    workers_step hperm hperm'
  have haccept : t.pc.active = true → s₁.main.accepting ≠ some t.fd := fun hactive =>
    hmain ▸ hs.not_accepting (worker_le ht hactive)
  have htally : s₁.armed t.fd ≤ s.armed t.fd →
      workers { s₁ with tasks } t.fd ≤ s.workers t.fd →
      tally { s₁ with tasks } t.fd ≤ s.tally t.fd := by
    intro harmed hle
    change (s₁.armed t.fd).toNat + s₁.main.tokens t.fd + workers { s₁ with tasks } t.fd ≤ _
    rw [hmain]
    exact Nat.add_le_add (Nat.add_le_add_right (Bool.toNat_le_toNat harmed) _) hle
  cases perform_outcome h with
  | @goOn q hactive hq hpast hreg _ =>
    refine hs.kept_goOn (htable hpast) hmain (congrFun hreg _) (worker_le ht hactive) ?_
    rw [hworkers, hworkers', hactive, Option.any_some, hq]
  | close hpast _ _ hreg =>
    have hactive := Pc.active_of_pastErase hpast
    have hgone := hf.gone ((hs.owned.task t ht).gone hpast)
    refine .of_gone hgone (htally ?_ ?_) (haccept hactive)
    · rcases hreg with hreg | hreg <;> simp [armed, hreg]
    · rw [hworkers, hworkers', hactive]
      exact Nat.add_le_add_left (Bool.toNat_le _) _
  | @rearm _ c₀ i hactive hpast hq hconn hreg hprocessing =>
    have hany : pc.any Pc.active = false := by
      cases pc with
      | none => rfl
      | some q => exact hq q rfl
    refine hs.kept_rearm (i := i) (htable hpast) hmain ?_ ?_ fun c hc hclosed => ?_
    · exact (congrFun hreg t.fd).trans (Function.update_self _ _ _)
    · rw [hworkers, hworkers', hactive, hany]
      rfl
    · have hc₀ : c₀ = t.owner := (hs.owned.task t ht).conn c₀ hconn
      have hc' : c = c₀ := (hself hactive c (hf.table t.fd c hc)).trans hc₀.symm
      subst hc'
      rcases hprocessing with hprocessing | ⟨⟨record, hpc⟩, hconns⟩
      · exact hprocessing
      · -- the flag is cleared by the section before the re-arm
        change (s₁.conns c).closed = false at hclosed
        change (s₁.conns c).processing = false
        rw [hconns] at hclosed ⊢
        refine (hs.rearm t ht c i record hpc).resolve_left ?_
        rw [hclosed]
        exact Bool.false_ne_true
  | leave hpast hreg hgone hsame =>
    by_cases hactive : t.pc.active = true
    · -- the connection is gone, for the task would have found it open
      refine .of_gone ?_ (htally ?_ ?_) (haccept hactive)
      · rcases hgone hactive with hnone | ⟨c₀, hconn, hclosed⟩
        · exact hf.gone hnone
        · refine Option.eq_none_iff_forall_ne_some.2 fun c hc => ?_
          have hc := hf.table t.fd c hc
          have hc₀ := (hs.owned.task t ht).conn c₀ hconn
          rw [hc₀, ← hself hactive c hc, hs.opened t.fd c hc] at hclosed
          cases hclosed
      · rw [armed, hreg, armed]
      · rw [hworkers, hworkers']
        exact Nat.le_add_right _ _
    · -- the task has only logged
      rw [Bool.not_eq_true] at hactive
      obtain rfl := hsame hactive
      have hwork : workers { s₁ with tasks } t.fd = s₁.workers t.fd := by
        rw [hworkers, hworkers', hactive]
        rfl
      refine ⟨htally le_rfl hwork.le, fun c hc => ?_, fun c hc => hs.opened t.fd c hc,
        fun c hc => hs.entered t.fd c hc, fun hm => hs.fresh t.fd hm, fun c hc hnone hm => ?_⟩
      · refine (hs.held t.fd c hc).trans_eq ?_
        rw [tally, ← hwork]
        rfl
      · exact hs.idle t.fd c hc (hwork ▸ hnone) hm

theorem Single.task_step {s s' : HttpServer Q} (hs : Single s) {i : ℕ} {r : Sys}
    (h : s.step reply idle (.task i r) = some s') : Single s' := by
  have howned : Owned s' := hs.owned.task_step h
  obtain ⟨l₁, t, l₂, s₁, pc, htasks, -, hperform, rfl⟩ := taskStep_cases h
  have hf := perform_frame hperform
  have hmain : s₁.main = s.main := by rw [perform_eq hperform]
  have hqueue : s₁.queue = s.queue := by rw [perform_eq hperform]
  have hperm := perm_thread_cons s.queue htasks
  have hperm' := perm_thread s₁.queue l₁ l₂ (pc.map fun pc => { t with pc })
  rw [show s₁.queue ++ (l₁ ++ l₂) = s.queue ++ (l₁ ++ l₂) by rw [hqueue]] at hperm'
  have hkept := hs.kept hperm hperm' hperform
  have ht : t ∈ s.queue ++ s.tasks := hperm.mem_iff.2 List.mem_cons_self
  have hothers : ∀ t' ∈ s.queue ++ (l₁ ++ l₂), t' ∈ s.queue ++ s.tasks := fun t' ht' =>
    hperm.mem_iff.2 (List.mem_cons_of_mem t ht')
  have hmem : ∀ t' ∈ s₁.queue ++ (l₁ ++ (pc.map fun pc => { t with pc }).toList ++ l₂),
      (∃ q ∈ pc, t' = { t with pc := q }) ∨ t' ∈ s.queue ++ (l₁ ++ l₂) :=
    fun t' ht' => mem_taskStep (hqueue ▸ ht')
  generalize hts : l₁ ++ (pc.map fun pc => { t with pc }).toList ++ l₂ = ts at *
  have hinactive : t.pc.active = false → s₁ = s := fun hactive =>
    (perform_inactive hperform hactive).1
  have hworkers : ∀ fd, fd ≠ t.fd → workers { s₁ with tasks := ts } fd = s.workers fd := by
    intro fd hfd
    rw [workers, workers, hperm.countP_eq, hperm'.countP_eq, List.countP_append, List.countP_cons]
    cases pc <;> simp [Task.worksOn, Ne.symm hfd]
  have htally : ∀ fd, fd ≠ t.fd → tally { s₁ with tasks := ts } fd = s.tally fd := by
    intro fd hfd
    rw [tally, tally, hworkers fd hfd]
    change (s₁.armed fd).toNat + s₁.main.tokens fd + _ = _
    rw [armed, armed, perform_registration_ne hperform hfd, hmain]
  have hactive : ∀ q ∈ pc, t.pc.active = true := by
    intro q hq
    by_contra hactive
    rw [(perform_inactive hperform (by simpa using hactive)).2] at hq
    cases hq
  refine .of_oneToken howned (fun t' ht' hactive' => ?_) (fun fd htoken => ?_) (fun fd => ?_)
    (fun fd c i' rest hm => ?_) fun t' ht' c i' record hpc => ?_
  · change s₁.latest t'.fd = some t'.owner
    rw [hf.latest]
    rcases hmem t' ht' with ⟨q, hq, rfl⟩ | ht'
    · exact hs.attached t ht (hactive q hq)
    · exact hs.attached t' (hothers t' ht') hactive'
  · have htoken : 1 ≤ s.main.tokens fd := hmain ▸ htoken
    have hopen := hs.live fd htoken
    show (s₁.owner fd).isSome = true
    rw [(perform_effect hperform).owner]
    split_ifs with hclose
    · -- the task has the only token of the descriptor that it closes
      have hfd : fd ≠ t.fd := by
        rintro rfl
        have hone := worker_le ht (by rw [hclose]; rfl)
        rw [hs.no_worker t.fd htoken] at hone
        exact Nat.not_succ_le_zero 0 hone
      rwa [Function.update_of_ne hfd]
    · exact hopen
  · by_cases hfd : fd = t.fd
    · subst hfd
      exact hkept.oneToken hs
    · have hreg : s₁.registration fd = s.registration fd := perform_registration_ne hperform hfd
      refine (hs.oneToken fd).frame (fun c hc => ?_) (htally fd hfd).le
        (congrArg Option.isSome hreg)
        (by rw [show ({ s₁ with tasks := ts } : HttpServer Q).main = s.main from hmain])
        fun hnone hm => ⟨hworkers fd hfd ▸ hnone, hmain ▸ hm⟩
      have hc := hf.table fd c hc
      refine ⟨hc, ?_, (htally fd hfd).ge⟩
      by_cases hworks : t.pc.active = true
      · refine perform_conns hperform fun hconn => hfd ?_
        have howner := hs.attached t ht hworks
        rw [← (hs.owned.task t ht).conn c hconn] at howner
        exact hs.owned.inj fd t.fd c (hs.latest hc) howner
      · rw [hinactive (by simpa using hworks)]
  · have hm : s.main = .begin fd c i' rest ∨ s.main = .enqueue fd c i' rest := hmain ▸ hm
    have hc := hs.begun fd c i' rest hm
    change s₁.connections.lookup fd = some c
    by_cases hfd : fd = t.fd
    · -- the main thread holds the token, so the task has given it back
      subst hfd
      have htokens : 1 ≤ s.main.tokens t.fd := by
        rcases hm with hm | hm <;> rw [hm] <;> simp [Main.tokens, Main.handling]
      have hnone := hs.no_worker _ htokens
      rw [hinactive (by_contra fun hactive => ?_)]
      · exact hc
      · have hone := worker_le ht (by simpa using hactive)
        omega
    · rw [perform_lookup_ne hperform hfd]
      exact hc
  · rcases hmem t' ht' with ⟨q, hq, rfl⟩ | ht'
    · cases hq
      cases hpc
      cases perform_outcome hperform with
      | goOn _ _ _ _ hrearm => exact hrearm c i' record rfl
      | close _ _ hne _ => exact absurd rfl (hne _ rfl c i' record)
      | rearm _ _ hq _ _ _ => cases hq _ rfl
    · have hold := hs.rearm t' (hothers t' ht') c i' record hpc
      change (s₁.conns c).closed = true ∨ (s₁.conns c).processing = false
      by_cases hconn : t.pc.conn? = some c
      · -- two tasks cannot work on the descriptor of one connection
        rw [hinactive (by_contra fun hworks => ?_)]
        · exact hold
        · have hworks : t.pc.active = true := by simpa using hworks
          have hc := (hs.owned.task t ht).conn c hconn
          have hc' := (hs.owned.task t' (hothers t' ht')).conn c (by rw [hpc]; rfl)
          have hfd : t'.fd = t.fd := by
            refine hs.owned.inj t'.fd t.fd c ?_ (hc ▸ hs.attached t ht hworks)
            rw [hs.attached t' (hothers t' ht') (by rw [hpc]; rfl), hc']
          have hrearm := hs.only_worker hperm hworks ht' hfd
          rw [hpc] at hrearm
          cases hrearm
      · rwa [perform_conns hperform hconn]

/-! ### Runs -/

theorem Single.init : Single (lts (Q := Q) reply idle).init := by
  have hnone : ∀ fd, (lts (Q := Q) reply idle).init.connections.lookup fd = none := fun fd =>
    Finmap.lookup_empty fd
  have htally : ∀ fd, (lts (Q := Q) reply idle).init.tally fd = 0 := fun fd => rfl
  constructor
  case owned => exact .init
  case attached => rintro t ⟨⟩
  case unique => exact fun fd => (htally fd).trans_le (Nat.zero_le 1)
  case live => exact fun fd htoken => absurd htoken (Nat.not_succ_le_zero 0)
  case fresh => rintro fd ⟨⟩
  case begun => rintro fd c i rest (h | h) <;> cases h
  case rearm => rintro t ⟨⟩
  all_goals
    intro fd c hc
    exact absurd ((hnone fd).symm.trans hc) (by simp)

theorem Single.step {s s' : HttpServer Q} {l : Label} (hs : Single s) (hfree : FreeNumber s l)
    (h : s.step reply idle l = some s') : Single s' := by
  have howned : Owned s' := hs.owned.step hfree.reuseSafe h
  cases l with
  | tick d =>
    cases h
    exact hs.move howned rfl rfl rfl (.refl _) (fun _ => rfl) rfl hs.live (fun _ => le_rfl)
      (fun _ _ _ => le_rfl) hs.begun fun _ _ _ _ hm => hm
  | requestStop =>
    cases h
    exact hs.move howned rfl rfl rfl (.refl _) (fun _ => rfl) rfl hs.live (fun _ => le_rfl)
      (fun _ _ _ => le_rfl) hs.begun fun _ _ _ _ hm => hm
  | main r => exact hs.main_step (mainStep_cases h) hfree
  | start =>
    obtain ⟨t, queue, hqueue, rfl⟩ := start_cases h
    have hperm := perm_start hqueue s.tasks
    have htally : ∀ fd, tally { s with queue, tasks := s.tasks ++ [t] } fd = s.tally fd := by
      intro fd
      rw [tally, tally, workers, workers, hperm.countP_eq]
      rfl
    exact hs.move howned rfl rfl rfl hperm (fun _ => rfl) rfl hs.live (fun fd => (htally fd).le)
      (fun fd _ _ => (htally fd).ge) hs.begun fun _ _ _ _ hm => hm
  | task i r => exact hs.task_step h

theorem single_of_reachable {s : HttpServer Q} (h : (lts reply idle).ReachableIf FreshNumber s) :
    Single s :=
  h.invariant .init fun _ _ _ _ hs hfresh hstep => hs.step (hs.freeNumber hfresh) hstep

variable (reply idle) in
/-- An active task can always make a step; it stays active and comes nearer to its end or moves
bytes, or its descriptor is armed or closed. -/
def GoesOn (s : HttpServer Q) (i : ℕ) (t : Task) : Prop :=
  (∃ r, (s.step reply idle (.task i r)).isSome = true) ∧
    ∀ r s', s.step reply idle (.task i r) = some s' →
      (∃ q, { t with pc := q } ∈ s'.tasks ∧ q.active = true ∧
        (q.rank < t.pc.rank ∨ r.movesBytes = true)) ∨
      ∀ c, s'.connections.lookup t.fd = some c → s'.armed t.fd = true

theorem Single.goesOn {s : HttpServer Q} (hs : Single s) {i : ℕ} {t : Task}
    (hi : s.tasks[i]? = some t) (hactive : t.pc.active = true) : GoesOn reply idle s i t := by
  refine ⟨?_, fun r s' h => ?_⟩
  · obtain ⟨r, s', pc', hperform⟩ := perform_enabled reply idle s t.fd t.pc
    exact ⟨r, by simp [HttpServer.step, stepThread, taskStep, hi, hperform]⟩
  · have hs' := hs.task_step h
    obtain ⟨l₁, t', l₂, s₁, pc, htasks, hi', hperform, rfl⟩ := taskStep_cases h
    obtain rfl : t = t' := Option.some.inj (hi.symm.trans hi')
    by_cases hq : ∃ q ∈ pc, q.active = true
    · obtain ⟨q, rfl, hq⟩ := hq
      exact .inl ⟨q, by simp, hq, perform_rank hperform⟩
    · right
      intro c hc
      have hperm := perm_thread_cons s.queue htasks
      have hperm' := perm_thread s₁.queue l₁ l₂ (pc.map fun pc => { t with pc })
      have hqueue : s₁.queue = s.queue := by rw [perform_eq hperform]
      have hmain : s₁.main = s.main := by rw [perform_eq hperform]
      have hunique := hs.unique t.fd
      have hheld := hs'.held t.fd c hc
      generalize hts : l₁ ++ (pc.map fun pc => { t with pc }).toList ++ l₂ = ts at *
      have hworkers : s.workers t.fd = (s.queue ++ (l₁ ++ l₂)).countP (Task.worksOn t.fd) + 1 := by
        rw [workers, hperm.countP_eq]
        simp [Task.worksOn, hactive]
      have hworkers' : workers { s₁ with tasks := ts } t.fd =
          (s.queue ++ (l₁ ++ l₂)).countP (Task.worksOn t.fd) := by
        rw [workers, hperm'.countP_eq, List.countP_append, ← hqueue, Nat.add_eq_right]
        cases pc with
        | none => rfl
        | some q => simpa [Task.worksOn] using hq
      have htally : tally { s₁ with tasks := ts } t.fd =
          (s₁.armed t.fd).toNat + s.main.tokens t.fd + workers { s₁ with tasks := ts } t.fd := by
        rw [← hmain]
        rfl
      unfold tally at hunique
      have harmed : 1 ≤ (s₁.armed t.fd).toNat := by omega
      change s₁.armed t.fd = true
      cases h₁ : s₁.armed t.fd with
      | true => rfl
      | false => rw [h₁] at harmed; cases harmed

/-- While the main thread holds a token it can always make a step. -/
theorem Owned.main_enabled {s : HttpServer Q} (hs : Owned s) (fd : Fd)
    (htokens : 1 ≤ s.main.tokens fd) : ∃ r, (s.step reply idle (.main r)).isSome = true := by
  cases hm : s.main with
  | events rest =>
    refine ⟨.done, ?_⟩
    simp only [HttpServer.step, mainStep, hm]
    rcases rest with _ | ⟨_ | ⟨fd', _ | _ | _⟩, rest⟩ <;> rfl
  | accept rest => exact ⟨.refused, by simp [HttpServer.step, mainStep, hm]⟩
  | dispatch fd' i rest =>
    refine ⟨.done, ?_⟩
    simp only [HttpServer.step, mainStep, hm]
    split <;> rfl
  | begin fd' c i rest =>
    refine ⟨.done, ?_⟩
    simp only [HttpServer.step, mainStep, hm]
    split_ifs <;> rfl
  | closing fd' pc caller =>
    refine ⟨.done, ?_⟩
    simp only [HttpServer.step, mainStep, hm, Option.isSome_map]
    rcases hs.main.closing fd' pc caller hm with rfl | hpast
    · simp only [Pc.code, HttpServer.perform]
      split <;> rfl
    · cases pc <;> cases hpast <;> rfl
  | register fd' ip rest => exact ⟨.done, by simp [HttpServer.step, mainStep, hm]⟩
  | add fd' rest => exact ⟨.done, by simp [HttpServer.step, mainStep, hm]⟩
  | enqueue fd' c i rest => exact ⟨.done, by simp [HttpServer.step, mainStep, hm]⟩
  | _ =>
    rw [hm] at htokens
    cases htokens

/-- **Single ownership and no lost event.** When `accept` never returns a number that was used
before: at most one queued or running task that is not past its re-arm or close works for a
connection, and it holds no other connection; the main thread finds a registered connection open and
not being processed whenever it handles one of its events, and the connection it has looked up is
still registered; every registered connection whose accept is complete is armed, or has a pending
event, or is in the hands of the main thread or of an active task; and these can always go on, to
the re-arm or the close. -/
theorem single_owner {s : HttpServer Q} (h : (lts reply idle).ReachableIf FreshNumber s) :
    (∀ c, (s.queue ++ s.tasks).countP (fun t => t.owner = c && t.pc.active) ≤ 1) ∧
    (∀ t ∈ s.queue ++ s.tasks, ∀ c ∈ t.pc.conn?, c = t.owner) ∧
    (∀ fd c i rest, s.main = .dispatch fd i rest ∨ s.main = .begin fd c i rest →
      s.connections.lookup fd = some c →
        (s.conns c).processing = false ∧ (s.conns c).closed = false) ∧
    (∀ fd c i rest, s.main = .begin fd c i rest → s.connections.lookup fd = some c) ∧
    (∀ fd c, s.connections.lookup fd = some c → s.main.accepting ≠ some fd → Holder s fd c) ∧
    (∀ i t, s.tasks[i]? = some t → t.pc.active = true → GoesOn reply idle s i t) ∧
    (s.queue ≠ [] → (s.step reply idle .start).isSome = true) ∧
    (∀ fd, s.main.handling = some fd ∨ (∃ kind, .client fd kind ∈ s.main.pending) →
      ∃ r, (s.step reply idle (.main r)).isSome = true) := by
  have hs := single_of_reachable h
  refine ⟨hs.one_worker, fun t ht => (hs.owned.task t ht).conn, fun fd c i rest hm hc => ?_,
    fun fd c i rest hm => hs.begun fd c i rest (.inl hm), fun fd c hc => hs.holder hc,
    fun i t => hs.goesOn, fun hqueue => ?_, fun fd hm => ?_⟩
  · have hworkers := hs.no_worker fd
      (by rcases hm with hm | hm <;> rw [hm] <;> simp [Main.tokens, Main.handling])
    refine ⟨hs.idle fd c hc hworkers ?_, hs.opened fd c hc⟩
    rintro _ _ _ hm'
    rcases hm with hm | hm <;> rw [hm] at hm' <;> cases hm'
  · obtain ⟨t, queue, hcons⟩ := List.exists_cons_of_ne_nil hqueue
    simp [HttpServer.step, hcons]
  · refine hs.owned.main_enabled fd ?_
    unfold Main.tokens
    rcases hm with hm | ⟨kind, hev⟩
    · simp [hm]
    · have hpos : 0 < s.main.pending.countP (Event.isFor fd) :=
        List.countP_pos_iff.2 ⟨_, hev, by simp [Event.isFor]⟩
      omega

theorem single_owner_dispatched : ∃ s, sample.ReachableIf FreshNumber s ∧
    s.connections.lookup 5 = some 0 ∧ Holder s 5 0 := by
  have hfresh : sample.Allowed FreshNumber sample.init dispatchRun := by decide +kernel
  obtain ⟨s, hrun, hm, hc⟩ : ∃ s ∈ sample.run sample.init dispatchRun,
      s.main.accepting ≠ some 5 ∧ s.connections.lookup 5 = some 0 := by decide +kernel
  have h := LTS.ReachableIf.run .init hfresh hrun
  obtain ⟨-, -, -, -, hholder, -⟩ := single_owner h
  exact ⟨s, h, hc, hholder 5 0 hc hm⟩

end Step

end HttpServer

end MiniServer
