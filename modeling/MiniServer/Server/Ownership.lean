import MiniServer.Server.Steps

/-!
# Whose descriptor a task works on

A task carries a descriptor number and looks the connection up again, and its `closed()` checks, its
system calls and its re-arm are separate steps.  When `accept` hands out the number of a closed
connection while such a task still waits or runs, the task goes on with the new client's socket.

`ReuseSafe` is the condition under which this cannot happen: when `accept` returns a number, the
tasks that were dispatched for it are gone, or are about to find their connection closed without
another call. `isolated_of_reuseSafe` proves isolation for every run whose accepts meet it, and
`not_isolated` is a run, with an idle timeout in the middle, that reads another client's bytes.
-/

namespace MiniServer

/-- The program counters of the main thread of which nothing needs to be known. -/
def Main.plain : Main → Bool
  | .register _ _ _ => false
  | .begin _ _ _ _ => false
  | .enqueue _ _ _ _ => false
  | .closing _ _ _ => false
  | _ => true

theorem Pc.active_of_pastErase {C : Type} {pc : Pc C} (h : pc.pastErase = true) :
    pc.active = true := by
  cases pc <;> first | rfl | cases h

theorem Pc.detached_of_pastErase {C : Type} {pc : Pc C} (h : pc.pastErase = true) :
    pc.detached = false := by
  cases pc <;> first | rfl | cases h

namespace HttpServer

variable {Q : Type}

/-- `accept` returns a number only when no task dispatched for it can still use it. -/
def ReuseSafe (s : HttpServer Q) : Label → Prop
  | .main (.accepted fd _) => ∀ t ∈ s.queue ++ s.tasks, t.fd = fd → t.pc.detached = true
  | _ => True

instance (s : HttpServer Q) : (l : Label) → Decidable (ReuseSafe s l)
  | .main (.accepted fd _) =>
    inferInstanceAs (Decidable (∀ t ∈ s.queue ++ s.tasks, t.fd = fd → t.pc.detached = true))
  | .main .done | .main (.events _) | .main .interrupted | .main .failed | .main .refused
  | .tick _ | .requestStop | .start | .task _ _ => inferInstanceAs (Decidable True)

/-! ### The property -/

/-- The action makes a system call on the socket. -/
def callsSocket (s : HttpServer Q) : Action ConnId → Bool
  | .read _ => true
  | .writev _ _ => true
  | .locked c body => (body (s.conns c)).arm.isSome
  | .mod _ _ => true
  | .del _ => true
  | .close => true
  | _ => false

/-- No running task is about to make a call on the socket of a connection that it was not
dispatched for. -/
def Isolated (reply : Bytes → Answer) (s : HttpServer Q) : Prop :=
  ∀ t ∈ s.tasks, s.callsSocket (t.pc.code reply) = true → ∀ c, s.owner t.fd = some c → c = t.owner

/-! ### The invariant -/

/-- What is known of a task. -/
structure TaskOwned (s : HttpServer Q) (t : Task) : Prop where
  made : t.owner < s.next
  conn : ∀ c ∈ t.pc.conn?, c = t.owner
  attached : t.pc.detached = false → s.latest t.fd = some t.owner
  stale : s.latest t.fd ≠ some t.owner → (s.conns t.owner).closed = true
  gone : t.pc.pastErase = true → s.connections.lookup t.fd = none
  marked : t.pc = .del ∨ t.pc = .close → (s.conns t.owner).closed = true

/-- What is known of the main thread. -/
structure MainOwned (s : HttpServer Q) : Prop where
  register : ∀ fd ip rest, s.main = .register fd ip rest →
    s.latest fd = some s.next ∧ s.owner fd = some s.next
  begin : ∀ fd c i rest, s.main = .begin fd c i rest ∨ s.main = .enqueue fd c i rest →
    c < s.next ∧ s.latest fd = some c
  closing : ∀ fd pc caller, s.main = .closing fd pc caller → pc = .closeBegin ∨ pc.pastErase = true
  gone : ∀ fd pc caller, s.main = .closing fd pc caller → pc.pastErase = true →
    s.connections.lookup fd = none
  conn : ∀ fd c caller, s.main = .closing fd (.markClosed c) caller → s.latest fd = some c
  marked : ∀ fd pc caller, s.main = .closing fd pc caller → pc = .del ∨ pc = .close →
    ∃ c, s.latest fd = some c ∧ (s.conns c).closed = true

/-- Every table and every thread that can still use a descriptor agrees on whose it is. -/
structure Owned (s : HttpServer Q) : Prop where
  file : ∀ fd c, s.owner fd = some c → s.latest fd = some c
  table : ∀ fd c, s.connections.lookup fd = some c → s.owner fd = some c
  shut : ∀ fd c, s.latest fd = some c → s.owner fd = none → (s.conns c).closed = true
  made : ∀ fd c, s.latest fd = some c →
    c < s.next ∨ c = s.next ∧ ∃ ip rest, s.main = .register fd ip rest
  inj : ∀ fd fd' c, s.latest fd = some c → s.latest fd' = some c → fd = fd'
  task : ∀ t ∈ s.queue ++ s.tasks, TaskOwned s t
  main : MainOwned s

/-- Unless a connection is being made, every number in use is smaller than the next one. -/
theorem Owned.latest_lt {s : HttpServer Q} (hs : Owned s)
    (hm : ∀ fd ip rest, s.main ≠ .register fd ip rest) {fd : Fd} {c : ConnId}
    (hc : s.latest fd = some c) : c < s.next :=
  (hs.made fd c hc).resolve_right fun ⟨_, ip, rest, hregister⟩ => hm fd ip rest hregister

theorem Owned.isolated {reply : Bytes → Answer} {s : HttpServer Q} (h : Owned s) :
    Isolated reply s := by
  intro t ht hcall c hc
  have htask := h.task t (List.mem_append_right _ ht)
  have hdetached : t.pc.detached = false := by
    cases hpc : t.pc with
    | respond c raw =>
      rw [hpc] at hcall
      simp only [Pc.code, callsSocket, Pc.respondBody] at hcall
      split_ifs at hcall <;> cases hcall
    | access c record => rw [hpc] at hcall; cases hcall
    | _ => rfl
  have hlatest := htask.attached hdetached
  rw [h.file t.fd c hc] at hlatest
  exact Option.some.inj hlatest

/-- What stays the same for everyone while a thread works on `fd`. -/
structure Frame (s s' : HttpServer Q) : Prop where
  latest : s'.latest = s.latest
  next : s'.next = s.next
  table : ∀ fd c, s'.connections.lookup fd = some c → s.connections.lookup fd = some c
  closed : ∀ c, (s.conns c).closed = true → (s'.conns c).closed = true

theorem Frame.gone {s s' : HttpServer Q} (hf : Frame s s') {fd : Fd}
    (h : s.connections.lookup fd = none) : s'.connections.lookup fd = none := by
  cases hc : s'.connections.lookup fd with
  | none => rfl
  | some c => rw [hf.table fd c hc] at h; cases h

theorem TaskOwned.frame {s s' : HttpServer Q} {t : Task} (h : TaskOwned s t) (hf : Frame s s') :
    TaskOwned s' t where
  made := by rw [hf.next]; exact h.made
  conn := h.conn
  attached hd := by rw [hf.latest]; exact h.attached hd
  stale hne := hf.closed _ (h.stale (by rwa [hf.latest] at hne))
  gone hpc := hf.gone (h.gone hpc)
  marked hpc := hf.closed _ (h.marked hpc)

/-! ### Steps that no handler makes -/

theorem MainOwned.of_plain {s : HttpServer Q} (h : Main.plain s.main = true) : MainOwned s := by
  constructor
  case begin => rintro fd c i rest (hm | hm) <;> rw [hm] at h <;> cases h
  all_goals
    intros
    simp_all [Main.plain]

theorem MainOwned.same {s s' : HttpServer Q} (h : MainOwned s) (hmain : s'.main = s.main)
    (howner : s'.owner = s.owner) (hlatest : s'.latest = s.latest) (hnext : s'.next = s.next)
    (hconn : s'.connections = s.connections) (hconns : s'.conns = s.conns) : MainOwned s' := by
  constructor <;> rw [hmain] <;> try rw [hlatest]
  · rw [howner, hnext]
    exact h.register
  · rw [hnext]
    exact h.begin
  · exact h.closing
  · rw [hconn]
    exact h.gone
  · exact h.conn
  · rw [hconns]
    exact h.marked

/-- A step that changes the program counter of the main thread and who waits where. -/
theorem Owned.move {s s' : HttpServer Q} (hs : Owned s) (howner : s'.owner = s.owner)
    (hlatest : s'.latest = s.latest) (hnext : s'.next = s.next)
    (hconn : s'.connections = s.connections)
    (hclosed : ∀ c, (s'.conns c).closed = (s.conns c).closed)
    (htasks : ∀ t ∈ s'.queue ++ s'.tasks, t ∈ s.queue ++ s.tasks ∨ TaskOwned s t)
    (hreg : ∀ fd ip rest, s.main = .register fd ip rest → s'.main = .register fd ip rest)
    (hmain : MainOwned s') : Owned s' := by
  have hf : Frame s s' :=
    ⟨hlatest, hnext, fun fd c hc => hconn ▸ hc, fun c hc => by rwa [hclosed]⟩
  refine ⟨fun fd c hc => ?_, fun fd c hc => ?_, fun fd c hc hnone => ?_, fun fd c hc => ?_,
    fun fd fd' c hc hc' => ?_, fun t ht => ?_, hmain⟩
  · rw [hlatest]
    exact hs.file fd c (howner ▸ hc)
  · rw [howner]
    exact hs.table fd c (hconn ▸ hc)
  · rw [hclosed]
    exact hs.shut fd c (hlatest ▸ hc) (howner ▸ hnone)
  · rw [hnext]
    exact (hs.made fd c (hlatest ▸ hc)).imp id fun ⟨heq, ip, rest, hm⟩ =>
      ⟨heq, ip, rest, hreg fd ip rest hm⟩
  · exact hs.inj fd fd' c (hlatest ▸ hc) (hlatest ▸ hc')
  · exact ((htasks t ht).elim (hs.task t) id).frame hf

theorem Owned.accepted {s : HttpServer Q} (hs : Owned s) {fd : Fd} {peerIp : Bytes}
    {rest : List Event} (hm : s.main = .accept rest) (hfree : s.files fd = none)
    (hsafe : ∀ t ∈ s.queue ++ s.tasks, t.fd = fd → t.pc.detached = true) :
    Owned { s with
      files := Function.update s.files fd (some { owner := s.next })
      latest := Function.update s.latest fd (some s.next)
      main := .register fd peerIp rest } := by
  -- the number of the new connection is larger than every one in use
  have hlt : ∀ fd' c, s.latest fd' = some c → c < s.next :=
    fun _ _ => hs.latest_lt (by simp [hm])
  have hfree' : s.owner fd = none := by rw [owner, hfree]; rfl
  have howner : ∀ fd', fd' ≠ fd →
      owner { s with
        files := Function.update s.files fd (some { owner := s.next })
        latest := Function.update s.latest fd (some s.next)
        main := .register fd peerIp rest } fd' = s.owner fd' := by
    intro fd' hne
    simp only [owner, Function.update_of_ne hne]
  refine ⟨fun fd' c hc => ?_, fun fd' c hc => ?_, fun fd' c hc hnone => ?_, fun fd' c hc => ?_,
    fun fd₁ fd₂ c hc₁ hc₂ => ?_, fun t ht => ?_, ?_⟩
  · by_cases hfd : fd' = fd
    · subst hfd
      simp only [owner, Function.update_self, Option.map_some] at hc ⊢
      exact hc
    · simp only [Function.update_of_ne hfd]
      exact hs.file fd' c (howner fd' hfd ▸ hc)
  · have hopen := hs.table fd' c hc
    have hfd : fd' ≠ fd := by
      rintro rfl
      rw [hfree'] at hopen
      cases hopen
    rw [howner fd' hfd]
    exact hopen
  · by_cases hfd : fd' = fd
    · subst hfd
      simp [owner] at hnone
    · simp only [Function.update_of_ne hfd] at hc
      exact hs.shut fd' c hc (howner fd' hfd ▸ hnone)
  · by_cases hfd : fd' = fd
    · subst hfd
      simp only [Function.update_self, Option.some.injEq] at hc
      exact .inr ⟨hc.symm, peerIp, rest, rfl⟩
    · simp only [Function.update_of_ne hfd] at hc
      exact .inl (hlt fd' c hc)
  · by_cases h₁ : fd₁ = fd <;> by_cases h₂ : fd₂ = fd
    · rw [h₁, h₂]
    · subst h₁
      simp only [Function.update_self, Option.some.injEq, Function.update_of_ne h₂] at hc₁ hc₂
      exact absurd hc₁ (Nat.ne_of_gt (hlt fd₂ c hc₂))
    · subst h₂
      simp only [Function.update_self, Option.some.injEq, Function.update_of_ne h₁] at hc₁ hc₂
      exact absurd hc₂ (Nat.ne_of_gt (hlt fd₁ c hc₁))
    · simp only [Function.update_of_ne h₁, Function.update_of_ne h₂] at hc₁ hc₂
      exact hs.inj fd₁ fd₂ c hc₁ hc₂
  · have htask := hs.task t ht
    by_cases hfd : t.fd = fd
    · -- the task was meant for an earlier connection, which is closed
      have hdetached := hsafe t ht hfd
      have hclosed : (s.conns t.owner).closed = true := by
        by_cases hlatest : s.latest t.fd = some t.owner
        · exact hs.shut _ _ hlatest (hfd ▸ hfree')
        · exact htask.stale hlatest
      refine ⟨htask.made, htask.conn, fun h => ?_, fun _ => hclosed, htask.gone, fun _ => hclosed⟩
      rw [hdetached] at h
      cases h
    · refine ⟨htask.made, htask.conn, ?_, ?_, htask.gone, htask.marked⟩ <;>
        simp only [Function.update_of_ne hfd]
      · exact htask.attached
      · exact htask.stale
  · constructor
    case register =>
      rintro fd' ip rest' ⟨⟩
      simp [owner]
    all_goals simp

theorem Owned.shutdown {s : HttpServer Q} (hs : Owned s) (hm : s.main = .shutdown) :
    Owned { s.closeAll with main := .stopped } := by
  have hmarked : ∀ c, (s.conns c).closed = true → (s.closeAll.conns c).closed = true := by
    intro c hc
    simp only [closeAll]
    split_ifs
    · rfl
    · exact hc
  have howner : ∀ fd, s.closeAll.owner fd = if fd ∈ s.connections then none else s.owner fd := by
    intro fd
    simp only [closeAll, owner]
    split_ifs <;> rfl
  have hf : Frame s { s.closeAll with main := .stopped } := by
    refine ⟨rfl, rfl, fun fd c hc => ?_, hmarked⟩
    change (∅ : Finmap fun _ : Fd => ConnId).lookup fd = some c at hc
    rw [Finmap.lookup_empty] at hc
    cases hc
  refine ⟨fun fd c hc => ?_, fun fd c hc => ?_, fun fd c hc hnone => ?_, fun fd c hc => ?_, hs.inj,
    fun t ht => (hs.task t ht).frame hf, .of_plain rfl⟩
  · change s.closeAll.owner fd = some c at hc
    rw [howner] at hc
    split_ifs at hc
    exact hs.file fd c hc
  · have hold := hf.table fd c hc
    change (∅ : Finmap fun _ : Fd => ConnId).lookup fd = some c at hc
    rw [Finmap.lookup_empty] at hc
    cases hc
  · change s.closeAll.owner fd = none at hnone
    rw [howner] at hnone
    split_ifs at hnone with hmem
    · -- the descriptor was in the table, so the object that is marked is its own
      obtain ⟨c', hc'⟩ := Option.isSome_iff_exists.1 (Finmap.lookup_isSome.2 hmem)
      have hsame : c' = c :=
        Option.some.inj ((hs.file fd c' (hs.table fd c' hc')).symm.trans hc)
      change (s.closeAll.conns c).closed = true
      simp only [closeAll]
      rw [if_pos ⟨fd, Finmap.mem_keys.2 hmem, hsame ▸ hc'⟩]
      rfl
    · exact hmarked c (hs.shut fd c hc hnone)
  · exact .inl (hs.latest_lt (by simp [hm]) hc)

theorem Owned.begin {s : HttpServer Q} (hs : Owned s) {m : Main} {fd : Fd} {c : ConnId}
    (hc : c < s.next) (hlatest : s.latest fd = some c)
    (hm : ∃ i rest, m = .begin fd c i rest ∨ m = .enqueue fd c i rest)
    (hreg : ∀ fd ip rest, s.main = .register fd ip rest → m = .register fd ip rest)
    {conns : ConnId → Connection}
    (hclosed : ∀ c, (conns c).closed = (s.conns c).closed) :
    Owned { s with conns, main := m } := by
  obtain ⟨i, rest, hm⟩ := hm
  refine hs.move rfl rfl rfl rfl hclosed (fun t ht => .inl ht) hreg ?_
  constructor
  case begin =>
    rintro fd' c' i' rest' hm'
    rcases hm with rfl | rfl <;> rcases hm' with hm' | hm' <;> cases hm' <;> exact ⟨hc, hlatest⟩
  all_goals rcases hm with rfl | rfl <;> simp

/-! ### Steps of a task -/

section Step

variable [PriorityQueue Q (TimerHeap.Node Fd ℕ) TimerHeap.later]
variable {reply : Bytes → Answer} {idle : ℕ}

theorem perform_frame {s s' : HttpServer Q} {fd : Fd} {pc : Pc ConnId} {r : Sys}
    {pc' : Option (Pc ConnId)} (h : s.perform idle fd (pc.code reply) r = some (s', pc')) :
    Frame s s' where
  latest := by rw [perform_eq h]
  next := by rw [perform_eq h]
  table := (perform_effect h).table
  closed := (perform_effect h).closed

/-- How a program counter comes from the one before it. -/
structure Next (s : HttpServer Q) (fd : Fd) (pc pc' : Pc ConnId) : Prop where
  conn : ∀ c ∈ pc'.conn?, c ∈ pc.conn? ∨ pc.detached = false ∧ s.connections.lookup fd = some c
  opened : pc.detached = true → ∃ c ∈ pc.conn?, (s.conns c).closed = false
  pastErase : pc'.pastErase = true → pc = .closeBegin ∨ pc.pastErase = true
  del : pc' = .del → ∃ c, pc = .markClosed c
  close : pc' = .close → pc = .del

theorem perform_next {s s' : HttpServer Q} {fd : Fd} {pc pc' : Pc ConnId} {r : Sys}
    (h : s.perform idle fd (pc.code reply) r = some (s', some pc')) : Next s fd pc pc' := by
  cases handler_cases h with
  | readFound hc => constructor <;> simp [Pc.conn?, Pc.detached, Pc.pastErase, hc]
  | writeFound hc => constructor <;> simp [Pc.conn?, Pc.detached, Pc.pastErase, hc]
  | processFound hc => constructor <;> simp [Pc.conn?, Pc.detached, Pc.pastErase, hc]
  | closeErase hc => constructor <;> simp [Pc.conn?, Pc.detached, Pc.pastErase, hc]
  | respond hopen => constructor <;> simp [Pc.conn?, Pc.detached, Pc.pastErase, hopen]
  | _ => constructor <;> simp [Pc.conn?, Pc.detached, Pc.pastErase]

theorem perform_markClosed {s s' : HttpServer Q} {fd : Fd} {c : ConnId} {r : Sys}
    {pc' : Option (Pc ConnId)}
    (h : s.perform idle fd ((Pc.markClosed c).code reply) r = some (s', pc')) :
    (s'.conns c).closed = true := by
  cases handler_cases h
  simp [setConn]

/-- A task after its step. -/
theorem TaskOwned.step {s s' : HttpServer Q} (hs : Owned s) {t : Task} (ht : TaskOwned s t)
    {r : Sys} {pc' : Pc ConnId}
    (h : s.perform idle t.fd (t.pc.code reply) r = some (s', some pc')) :
    TaskOwned s' { t with pc := pc' } := by
  have hf := perform_frame h
  have hnext := perform_next h
  have hlatest : pc'.detached = false → s.latest t.fd = some t.owner := by
    intro _
    cases hd : t.pc.detached with
    | false => exact ht.attached hd
    | true =>
      obtain ⟨c, hc, hopen⟩ := hnext.opened hd
      by_contra hne
      rw [ht.conn c hc, ht.stale hne] at hopen
      cases hopen
  refine ⟨by rw [hf.next]; exact ht.made, fun c hc => ?_, fun hd => ?_, fun hne => ?_, ?_, ?_⟩
  · rcases hnext.conn c hc with hc | ⟨hd, hc⟩
    · exact ht.conn c hc
    · have hlatest := ht.attached hd
      rw [hs.file _ _ (hs.table _ _ hc)] at hlatest
      exact Option.some.inj hlatest
  · rw [hf.latest]
    exact hlatest hd
  · rw [hf.latest] at hne
    exact hf.closed _ (ht.stale hne)
  · intro hpast
    rcases hnext.pastErase hpast with hpc | hpc
    · exact (perform_close (.inl hpc) h).2 hpc
    · exact hf.gone (ht.gone hpc)
  · rintro (rfl | rfl)
    · obtain ⟨c, hc⟩ := hnext.del rfl
      have hmark := hc ▸ h
      have hclosed := perform_markClosed hmark
      rwa [ht.conn c (by rw [hc]; rfl)] at hclosed
    · exact hf.closed _ (ht.marked (.inl (hnext.close rfl)))

/-- The tables after a step at `pc` on the descriptor `fd`. -/
theorem Owned.perform {s s' : HttpServer Q} (hs : Owned s) {fd : Fd} {pc : Pc ConnId} {r : Sys}
    {pc' : Option (Pc ConnId)} (h : s.perform idle fd (pc.code reply) r = some (s', pc'))
    (hclose : pc = .close → s.connections.lookup fd = none ∧
      ∃ c, s.latest fd = some c ∧ (s.conns c).closed = true) :
    (∀ fd' c, s'.owner fd' = some c → s'.latest fd' = some c) ∧
    (∀ fd' c, s'.connections.lookup fd' = some c → s'.owner fd' = some c) ∧
    (∀ fd' c, s'.latest fd' = some c → s'.owner fd' = none → (s'.conns c).closed = true) := by
  have hf := perform_frame h
  have he := perform_effect h
  have howner := he.owner
  split_ifs at howner with hpc
  · obtain ⟨hgone, c₀, hc₀, hclosed⟩ := hclose hpc
    refine ⟨fun fd' c hc => ?_, fun fd' c hc => ?_, fun fd' c hc hnone => ?_⟩
    · rw [hf.latest]
      rw [howner] at hc
      by_cases hfd : fd' = fd
      · subst hfd
        rw [Function.update_self] at hc
        cases hc
      · rw [Function.update_of_ne hfd] at hc
        exact hs.file fd' c hc
    · have hc' := hf.table fd' c hc
      have hfd : fd' ≠ fd := by
        rintro rfl
        rw [hgone] at hc'
        cases hc'
      rw [howner, Function.update_of_ne hfd]
      exact hs.table fd' c hc'
    · rw [hf.latest] at hc
      by_cases hfd : fd' = fd
      · subst hfd
        rw [hc₀] at hc
        exact Option.some.inj hc ▸ hf.closed _ hclosed
      · rw [howner, Function.update_of_ne hfd] at hnone
        exact hf.closed c (hs.shut fd' c hc hnone)
  · refine ⟨fun fd' c hc => ?_, fun fd' c hc => ?_, fun fd' c hc hnone => ?_⟩
    · rw [hf.latest]
      exact hs.file fd' c (howner ▸ hc)
    · rw [howner]
      exact hs.table fd' c (hf.table fd' c hc)
    · rw [hf.latest] at hc
      exact hf.closed c (hs.shut fd' c hc (howner ▸ hnone))

theorem Owned.task_step {s s' : HttpServer Q} (hs : Owned s) {i : ℕ} {r : Sys}
    (h : s.step reply idle (.task i r) = some s') : Owned s' := by
  obtain ⟨l₁, t, l₂, s₁, pc, htasks, -, hperform, rfl⟩ := taskStep_cases h
  have hperm := perm_thread_cons s.queue htasks
  have ht : TaskOwned s t := hs.task t (hperm.mem_iff.2 List.mem_cons_self)
  have hf := perform_frame hperform
  have hmain : s₁.main = s.main := by rw [perform_eq hperform]
  obtain ⟨hfile, htable, hshut⟩ := hs.perform hperform fun hpc =>
    ⟨ht.gone (by rw [hpc]; rfl), t.owner, ht.attached (by rw [hpc]; rfl), ht.marked (.inr hpc)⟩
  refine ⟨hfile, htable, hshut, fun fd c hc => ?_, fun fd fd' c hc hc' => ?_, ?_, ?_⟩
  · change c < s₁.next ∨ c = s₁.next ∧ ∃ ip rest, s₁.main = .register fd ip rest
    rw [hf.next, hmain]
    exact hs.made fd c (hf.latest ▸ hc)
  · exact hs.inj fd fd' c (hf.latest ▸ hc) (hf.latest ▸ hc')
  · intro t' ht'
    change t' ∈ s₁.queue ++ (l₁ ++ (pc.map fun pc => { t with pc }).toList ++ l₂) at ht'
    have hqueue : s₁.queue = s.queue := by rw [perform_eq hperform]
    have hold : ∀ t' ∈ s.queue ++ s.tasks, TaskOwned s₁ t' :=
      fun t' h' => (hs.task t' h').frame hf
    rw [hqueue] at ht'
    refine TaskOwned.frame (s := s₁) ?_ ⟨rfl, rfl, fun _ _ h => h, fun _ h => h⟩
    rcases mem_taskStep ht' with ⟨q, hq, rfl⟩ | ht'
    · cases hq
      exact ht.step hs hperform
    · exact hold t' (hperm.mem_iff.2 (List.mem_cons_of_mem t ht'))
  · refine ⟨fun fd ip rest hm => ?_, fun fd c i rest hm => ?_, fun fd q caller hm => ?_,
      fun fd q caller hm hq => ?_, fun fd c caller hm => ?_, fun fd q caller hm hq => ?_⟩
    · obtain ⟨hlatest, hopen⟩ := hs.main.register fd ip rest (hmain ▸ hm)
      refine ⟨by change s₁.latest fd = some s₁.next; rw [hf.latest, hf.next, hlatest], ?_⟩
      have howner := (perform_effect hperform).owner
      change s₁.owner fd = some s₁.next
      rw [hf.next, howner]
      split_ifs with hpc
      · -- no task can close the number that `accept` has just returned
        rw [Function.update_of_ne, hopen]
        rintro rfl
        have hattached := ht.attached (by rw [hpc]; rfl)
        rw [hlatest, Option.some.injEq] at hattached
        exact Nat.lt_irrefl _ (hattached ▸ ht.made)
      · exact hopen
    · have hbegin := hs.main.begin fd c i rest (hmain ▸ hm)
      rw [← hf.next, ← hf.latest] at hbegin
      exact hbegin
    · exact hs.main.closing fd q caller (hmain ▸ hm)
    · exact hf.gone (hs.main.gone fd q caller (hmain ▸ hm) hq)
    · have hconn := hs.main.conn fd c caller (hmain ▸ hm)
      rw [← hf.latest] at hconn
      exact hconn
    · obtain ⟨c, hc, hclosed⟩ := hs.main.marked fd q caller (hmain ▸ hm) hq
      rw [← hf.latest] at hc
      exact ⟨c, hc, hf.closed c hclosed⟩

/-! ### Steps of the main thread -/

theorem Owned.register {s : HttpServer Q} (hs : Owned s) {fd : Fd} {peerIp : Bytes}
    {rest : List Event} (hm : s.main = .register fd peerIp rest) :
    Owned { s.register idle fd peerIp with main := .add fd rest } := by
  obtain ⟨hlatest, hopen⟩ := hs.main.register fd peerIp rest hm
  have hconns : ∀ c, c ≠ s.next →
      Function.update s.conns s.next { fd, peerIp } c = s.conns c :=
    fun c hc => Function.update_of_ne hc _ _
  have hattached : ∀ t ∈ s.queue ++ s.tasks, t.pc.detached = false → t.fd ≠ fd := by
    rintro t ht hd rfl
    have heq := (hs.task t ht).attached hd
    rw [hlatest, Option.some.injEq] at heq
    exact Nat.lt_irrefl _ (heq ▸ (hs.task t ht).made)
  refine ⟨hs.file, fun fd' c hc => ?_, fun fd' c hc hnone => ?_, fun fd' c hc => ?_, hs.inj,
    fun t ht => ?_, .of_plain rfl⟩
  · change (s.connections.insert fd s.next).lookup fd' = some c at hc
    by_cases hfd : fd' = fd
    · subst hfd
      rw [Finmap.lookup_insert] at hc
      rw [← hc]
      exact hopen
    · rw [Finmap.lookup_insert_of_ne _ hfd] at hc
      exact hs.table fd' c hc
  · change (Function.update s.conns s.next _ c).closed = true
    rw [hconns]
    · exact hs.shut fd' c hc hnone
    · rintro rfl
      rw [hs.inj fd' fd _ hc hlatest] at hnone
      exact absurd (hnone.symm.trans hopen) (by simp)
  · rcases hs.made fd' c hc with hlt | ⟨rfl, -⟩
    · exact .inl (Nat.lt_succ_of_lt hlt)
    · exact .inl (Nat.lt_succ_self _)
  · have htask := hs.task t ht
    have hsame := hconns t.owner (Nat.ne_of_lt htask.made)
    refine ⟨Nat.lt_succ_of_lt htask.made, htask.conn, htask.attached, fun hne => ?_,
      fun hpast => ?_, fun hpc => ?_⟩
    · change (Function.update s.conns s.next _ t.owner).closed = true
      rw [hsame]
      exact htask.stale hne
    · change (s.connections.insert fd s.next).lookup t.fd = none
      rw [Finmap.lookup_insert_of_ne _ (hattached t ht (Pc.detached_of_pastErase hpast))]
      exact htask.gone hpast
    · change (Function.update s.conns s.next _ t.owner).closed = true
      rw [hsame]
      exact htask.marked hpc

theorem Owned.close {s s₁ : HttpServer Q} (hs : Owned s) {fd : Fd} {pc : Pc ConnId}
    {caller : Caller} {pc' : Option (Pc ConnId)} (hm : s.main = .closing fd pc caller)
    (h : s.perform idle fd (pc.code reply) .done = some (s₁, pc')) :
    Owned { s₁ with main := pc'.elim caller.main fun pc' => .closing fd pc' caller } := by
  have hf := perform_frame h
  have hpc := hs.main.closing fd pc caller hm
  obtain ⟨hpast, herase⟩ := perform_close hpc h
  obtain ⟨hfile, htable, hshut⟩ := hs.perform h fun hpc =>
    ⟨hs.main.gone fd pc caller hm (by rw [hpc]; rfl), hs.main.marked fd pc caller hm (.inr hpc)⟩
  have hlt : ∀ fd' c, s.latest fd' = some c → c < s.next :=
    fun _ _ => hs.latest_lt (by simp [hm])
  refine ⟨hfile, htable, hshut, fun fd' c hc => .inl ?_, fun fd' fd'' c hc hc' => ?_,
    fun t ht => ?_, ?_⟩
  · change c < s₁.next
    rw [hf.next]
    exact hlt fd' c (hf.latest ▸ hc)
  · exact hs.inj fd' fd'' c (hf.latest ▸ hc) (hf.latest ▸ hc')
  · refine TaskOwned.frame (s := s₁) ?_ ⟨rfl, rfl, fun _ _ h => h, fun _ h => h⟩
    refine (hs.task t ?_).frame hf
    have hqueue : s₁.queue = s.queue := by rw [perform_eq h]
    have htasks : s₁.tasks = s.tasks := by rw [perform_eq h]
    rw [← hqueue, ← htasks]
    exact ht
  · cases pc' with
    | none => exact .of_plain (by cases caller <;> rfl)
    | some q =>
      have hnext := perform_next h
      constructor
      case register => rintro _ _ _ ⟨⟩
      case begin => rintro _ _ _ _ (hq | hq) <;> cases hq
      case closing =>
        rintro _ _ _ ⟨⟩
        exact .inr (hpast _ rfl)
      -- only the first step of `closeConnection` erases the entry
      case gone =>
        rintro _ _ _ ⟨⟩ -
        rcases hpc with hpc | hpc
        · exact herase hpc
        · exact hf.gone (hs.main.gone fd pc caller hm hpc)
      -- the object is the one that was found in the table
      case conn =>
        rintro _ c _ ⟨⟩
        change s₁.latest fd = some c
        rw [hf.latest]
        rcases hnext.conn c rfl with hc | ⟨-, hc⟩
        · rcases hpc with rfl | hpc
          · cases hc
          · cases pc <;> cases hpc <;> cases hc
            exact hs.main.conn fd c caller hm
        · exact hs.file fd c (hs.table fd c hc)
      case marked =>
        rintro _ _ _ ⟨⟩ (rfl | rfl)
        · obtain ⟨c, rfl⟩ := hnext.del rfl
          have hclosed := perform_markClosed h
          refine ⟨c, ?_, hclosed⟩
          change s₁.latest fd = some c
          rw [hf.latest]
          exact hs.main.conn fd c caller hm
        · obtain ⟨c, hc, hclosed⟩ := hs.main.marked fd pc caller hm (.inl (hnext.close rfl))
          rw [← hf.latest] at hc
          exact ⟨c, hc, hf.closed c hclosed⟩

theorem Owned.main_step {s s' : HttpServer Q} {r : MainSys} (hs : Owned s)
    (h : MainCase reply idle s r s') (hsafe : ReuseSafe s (.main r)) : Owned s' := by
  -- most steps change the program counter only
  have hmove : ∀ {m m' : Main}, s.main = m →
      (∀ fd ip rest, m = .register fd ip rest → m' = .register fd ip rest) →
      m'.plain = true → Owned { s with main := m' } := by
    rintro m m' rfl hreg hplain
    exact hs.move rfl rfl rfl rfl (fun _ => rfl) (fun t ht => .inl ht) hreg (.of_plain hplain)
  -- `closeConnection` starts with the entry still in the table
  have hclosing : ∀ {m : Main} {fd : Fd} {caller : Caller}, s.main = m →
      (∀ fd ip rest, m ≠ .register fd ip rest) →
      Owned { s with main := .closing fd .closeBegin caller } := by
    rintro m fd caller rfl hreg
    refine hs.move rfl rfl rfl rfl (fun _ => rfl) (fun t ht => .inl ht)
      (fun fd ip rest hm => absurd hm (hreg fd ip rest)) ?_
    constructor
    case closing => rintro _ _ _ ⟨⟩; exact .inl rfl
    case gone => rintro _ _ _ ⟨⟩ ⟨⟩
    case marked => rintro _ _ _ ⟨⟩ (h | h) <;> cases h
    all_goals simp
  cases h with
  | loop hm => exact hmove hm (by simp) (by split_ifs <;> rfl)
  | @wait evs s₁ hm hev =>
    have howner := deliverAll_owner hev
    obtain ⟨files, rfl⟩ := deliverAll_eq hev
    exact hs.move howner rfl rfl rfl (fun _ => rfl) (fun t ht => .inl ht) (by simp [hm])
      (.of_plain rfl)
  | interrupted hm => exact hmove hm (by simp) rfl
  | failed hm => exact hmove hm (by simp) rfl
  | batchEnd hm => exact hmove hm (by simp) rfl
  | listen hm => exact hmove hm (by simp) rfl
  | hangup hm => exact hclosing hm (by simp)
  | ready hm => exact hmove hm (by simp) rfl
  | accepted hm hr hfree =>
    subst hr
    exact hs.accepted hm hfree hsafe
  | refused hm => exact hmove hm (by simp) rfl
  | register hm => exact hs.register hm
  | add hm =>
    exact hs.move (owner_updateFile s _ fun _ => rfl) rfl rfl rfl (fun _ => rfl)
      (fun t ht => .inl ht) (by simp [hm]) (.of_plain rfl)
  | gone hm _ => exact hmove hm (by simp) rfl
  | @dispatch fd c i rest hm hc =>
    have hlatest := hs.file fd c (hs.table fd c hc)
    refine hs.begin ?_ hlatest ⟨i, rest, .inl rfl⟩ (by simp [hm]) fun _ => rfl
    exact hs.latest_lt (by simp [hm]) hlatest
  | @begin fd c i rest hm _ _ =>
    obtain ⟨hlt, hlatest⟩ := hs.main.begin fd c i rest (.inl hm)
    refine hs.begin hlt hlatest ⟨i, rest, .inr rfl⟩ (by simp [hm]) fun c' => ?_
    simp only [setConn]
    by_cases hc : c' = c
    · subst hc
      rw [Function.update_self]
      rfl
    · rw [Function.update_of_ne hc]
  | discard hm _ => exact hmove hm (by simp) rfl
  | @enqueue fd c i rest hm =>
    obtain ⟨hlt, hlatest⟩ := hs.main.begin fd c i rest (.inr hm)
    refine hs.move rfl rfl rfl rfl (fun _ => rfl) (fun t ht => ?_) (by simp [hm]) (.of_plain rfl)
    simp only [List.mem_append, List.mem_singleton] at ht
    rcases ht with (ht | rfl) | ht
    · exact .inl (List.mem_append_left _ ht)
    · right
      cases i <;> exact ⟨hlt, by rintro _ ⟨⟩, fun _ => hlatest, fun hne => absurd hlatest hne,
        by rintro ⟨⟩, by rintro (h | h) <;> cases h⟩
    · exact .inl (List.mem_append_right _ ht)
  | close hm hperform => exact hs.close hm hperform
  | idle hm =>
    exact hs.move rfl rfl rfl rfl (fun _ => rfl) (fun t ht => .inl ht) (by simp [hm])
      (.of_plain rfl)
  | idleEnd hm => exact hmove hm (by simp) rfl
  | idleNext hm => exact hclosing hm (by simp)
  | stop hm =>
    exact hs.move rfl rfl rfl rfl (fun _ => rfl) (fun t ht => .inl ht) (by simp [hm])
      (.of_plain rfl)
  | join hm _ _ => exact hmove hm (by simp) rfl
  | shutdown hm => exact hs.shutdown hm

theorem Owned.init : Owned (lts (Q := Q) reply idle).init := by
  refine ⟨?_, fun fd c hc => ?_, ?_, ?_, ?_, by rintro t ⟨⟩, .of_plain rfl⟩
  case refine_2 =>
    change (∅ : Finmap fun _ : Fd => ConnId).lookup fd = some c at hc
    rw [Finmap.lookup_empty] at hc
    cases hc
  case refine_5 => rintro fd fd' c hc; cases hc
  all_goals rintro fd c ⟨⟩

theorem Owned.step {s s' : HttpServer Q} {l : Label} (hs : Owned s) (hsafe : ReuseSafe s l)
    (h : s.step reply idle l = some s') : Owned s' := by
  cases l with
  | tick d =>
    cases h
    exact hs.move rfl rfl rfl rfl (fun _ => rfl) (fun t ht => .inl ht) (fun _ _ _ h => h)
      (hs.main.same rfl rfl rfl rfl rfl rfl)
  | requestStop =>
    cases h
    exact hs.move rfl rfl rfl rfl (fun _ => rfl) (fun t ht => .inl ht) (fun _ _ _ h => h)
      (hs.main.same rfl rfl rfl rfl rfl rfl)
  | main r => exact hs.main_step (mainStep_cases h) hsafe
  | start =>
    obtain ⟨t, queue, hqueue, rfl⟩ := start_cases h
    have hperm := perm_start hqueue s.tasks
    exact hs.move rfl rfl rfl rfl (fun _ => rfl) (fun t' ht' => .inl (hperm.mem_iff.1 ht'))
      (fun _ _ _ h => h) (hs.main.same rfl rfl rfl rfl rfl rfl)
  | task i r => exact hs.task_step h

/-- **Isolation under descriptor reuse.** In a run whose calls of `accept` return a number only when
no task dispatched for it can still use it, no task is ever about to make a call on the socket of a
connection that it was not dispatched for. -/
theorem isolated_of_reuseSafe {s : HttpServer Q} (h : (lts reply idle).ReachableIf ReuseSafe s) :
    Isolated reply s :=
  (h.invariant .init fun _ _ _ _ hs hsafe hstep => Owned.step hs hsafe hstep).isolated

theorem isolated_of_reuseSafe_read : ∃ s, sample.ReachableIf ReuseSafe s ∧
    s.tasks = [⟨5, 0, .read 0⟩] ∧ Isolated Site.empty.reply s := by
  have hsafe : sample.Allowed ReuseSafe sample.init (dispatchRun ++ [.start, .task 0 .done]) := by
    decide +kernel
  obtain ⟨s, hrun, htasks⟩ : ∃ s ∈ sample.run sample.init (dispatchRun ++ [.start, .task 0 .done]),
      s.tasks = [⟨5, 0, .read 0⟩] := by decide +kernel
  have h := LTS.ReachableIf.run .init hsafe hrun
  exact ⟨s, h, htasks, isolated_of_reuseSafe h⟩

/-- The task of the first client is still queued when its connection is closed as idle; `accept`
then returns the same number for a second client, and the task looks that one up. -/
def reuseRun : List Label :=
  dispatchRun ++ [.tick 30, .main .done, .main .done, .main .done, .main .done, .main .done,
    .main .done, .main .done, .main .done, .main .done, .main (.events [.listen]), .main .done,
    .main (.accepted 5 []), .main .done, .main .done, .start, .task 0 .done]

/-- **Not isolated.**  The task of connection 0 is about to read from the socket of connection 1. -/
theorem not_isolated : ∃ s, sample.run sample.init reuseRun = some s ∧ sample.Reachable s ∧
    ¬ Isolated Site.empty.reply s := by
  obtain ⟨s, hrun, htask, howner⟩ : ∃ s ∈ sample.run sample.init reuseRun,
      ⟨5, 0, .read 1⟩ ∈ s.tasks ∧ s.owner 5 = some 1 := by decide +kernel
  refine ⟨s, hrun, LTS.reachable_of_run hrun, fun h => ?_⟩
  exact absurd (h _ htask rfl 1 howner) (by decide)

end Step

end HttpServer

end MiniServer
