import MiniServer.Server.Steps

/-!
# No connection escapes the idle timer

`connections_` and `timers_` change in different sections of different threads.  The only section
that removes a timer and leaves the connection is `popExpired`, and the descriptors it returns are
the ones that the main thread is about to close (`Main.expiring`).
-/

namespace MiniServer

/-- The descriptors that `closeIdleConnections` has taken out of the timers and not yet out of the
table. -/
def Main.expiring : Main → List Fd
  | .expired rest => rest
  | .closing fd .closeBegin (.idle rest) => fd :: rest
  | .closing _ _ (.idle rest) => rest
  | _ => []

/-- The main thread is in `closeIdleConnections`. -/
def Main.inIdle : Main → Bool
  | .idle => true
  | .expired _ => true
  | .closing _ _ (.idle _) => true
  | _ => false

theorem Main.expiring_of_not_inIdle {m : Main} (h : m.inIdle = false) : m.expiring = [] := by
  unfold inIdle at h
  unfold expiring
  split at h <;> simp_all

theorem Caller.expiring_main (caller : Caller) (fd : Fd) {pc : Pc ConnId} (hpc : pc ≠ .closeBegin) :
    (Main.closing fd pc caller).expiring = caller.main.expiring := by
  cases caller with
  | events rest => cases pc <;> rfl
  | idle rest => cases pc <;> first | rfl | exact absurd rfl hpc

namespace HttpServer

variable {Q : Type} [PriorityQueue Q (TimerHeap.Node Fd ℕ) TimerHeap.later]
variable {reply : Bytes → Answer} {idle : ℕ}

/-- Every registered descriptor has a deadline or is about to be closed as idle. -/
structure HasTimers (s : HttpServer Q) : Prop where
  closing : ∀ fd pc caller, s.main = .closing fd pc caller →
    pc = .closeBegin ∨ pc.pastErase = true
  timer : ∀ fd c, s.connections.lookup fd = some c →
    (s.timers.deadline fd).isSome = true ∨ fd ∈ s.main.expiring

/-- A handler takes a timer away only with the connection. -/
theorem Tables.timer {s s' : HttpServer Q} {fd fd' : Fd} {c : ConnId} (h : Tables idle s fd s')
    (hc : s'.connections.lookup fd' = some c) :
    s.connections.lookup fd' = some c ∧
      ((s.timers.deadline fd').isSome = true → (s'.timers.deadline fd').isSome = true) := by
  cases h with
  | same hconn htimer => exact ⟨hconn ▸ hc, fun hd => htimer ▸ hd⟩
  | refresh hconn htimer =>
    refine ⟨hconn ▸ hc, fun hd => ?_⟩
    rw [htimer, TimerHeap.deadline_addOrUpdate]
    split_ifs
    · rfl
    · exact hd
  | erase hconn htimer =>
    have hne : fd' ≠ fd := by
      rintro rfl
      rw [hconn, Finmap.lookup_erase] at hc
      cases hc
    rw [hconn, Finmap.lookup_erase_ne hne] at hc
    refine ⟨hc, fun hd => ?_⟩
    rwa [htimer, TimerHeap.deadline_remove, if_neg hne]

omit [PriorityQueue Q (TimerHeap.Node Fd ℕ) TimerHeap.later] in
/-- A step that leaves the tables alone and takes nothing out of the list. -/
theorem HasTimers.of_same {s s' : HttpServer Q} (hs : HasTimers s)
    (hconn : s'.connections = s.connections) (htimer : s'.timers = s.timers)
    (hclosing : ∀ fd pc caller, s'.main = .closing fd pc caller →
      pc = .closeBegin ∨ pc.pastErase = true)
    (hsub : s.main.expiring ⊆ s'.main.expiring) : HasTimers s' := by
  refine ⟨hclosing, fun fd c hc => ?_⟩
  rw [hconn] at hc
  rw [htimer]
  exact (hs.timer fd c hc).imp id fun hfd => hsub hfd

theorem HasTimers.close {s s₁ : HttpServer Q} (hs : HasTimers s) {fd : Fd} {pc : Pc ConnId}
    {caller : Caller} {pc' : Option (Pc ConnId)} (hm : s.main = .closing fd pc caller)
    (h : s.perform idle fd (pc.code reply) .done = some (s₁, pc')) :
    HasTimers { s₁ with main := pc'.elim caller.main fun pc' => .closing fd pc' caller } := by
  obtain ⟨hpast, herase⟩ := perform_close (hs.closing fd pc caller hm) h
  have hexpiring : (pc'.elim caller.main fun pc' => .closing fd pc' caller).expiring =
      caller.main.expiring := by
    cases pc' with
    | none => rfl
    | some q =>
      refine caller.expiring_main fd ?_
      rintro rfl
      cases hpast _ rfl
  refine ⟨fun fd' q caller' hq => .inr ?_, fun fd' c hc => ?_⟩
  · cases pc' with
    | none => cases caller <;> cases hq
    | some q' => cases hq; exact hpast q rfl
  · obtain ⟨hc', htimer⟩ := (perform_tables h).timer hc
    rw [hexpiring]
    rcases hs.timer fd' c hc' with hd | hfd
    · exact .inl (htimer hd)
    · right
      rw [hm] at hfd
      by_cases hpc : pc = .closeBegin
      · -- the descriptor at the head of the list is no longer in the table
        have hne : fd' ≠ fd := by
          rintro rfl
          rw [herase hpc] at hc
          cases hc
        subst hpc
        cases caller with
        | events rest => exact hfd
        | idle rest => exact (List.mem_cons.1 hfd).resolve_left hne
      · rwa [caller.expiring_main fd hpc] at hfd

theorem HasTimers.main {s s' : HttpServer Q} {r : MainSys} (hs : HasTimers s)
    (h : MainCase reply idle s r s') : HasTimers s' := by
  -- most steps leave the connections and the timers alone
  have hmove : ∀ {s' : HttpServer Q} {m : Main}, s.main.expiring ⊆ m.expiring →
      (∀ fd pc caller, m = .closing fd pc caller → pc = .closeBegin) →
      s'.connections = s.connections → s'.timers = s.timers → s'.main = m → HasTimers s' := by
    rintro s' m hsub hclosing hconn htimer rfl
    exact hs.of_same hconn htimer (fun fd pc caller hm => .inl (hclosing fd pc caller hm)) hsub
  have hnone : ∀ {m m' : Main}, s.main = m → m.expiring = [] →
      s.main.expiring ⊆ m'.expiring := by
    rintro m m' rfl hm
    rw [hm]
    exact List.nil_subset _
  cases h with
  | loop hm =>
    refine hmove (hnone hm rfl) ?_ rfl rfl rfl
    split_ifs <;> rintro _ _ _ ⟨⟩
  | wait hm hev =>
    obtain ⟨files, rfl⟩ := deliverAll_eq hev
    exact hmove (hnone hm rfl) (by rintro _ _ _ ⟨⟩) rfl rfl rfl
  | interrupted hm => exact hmove (hnone hm rfl) (by rintro _ _ _ ⟨⟩) rfl rfl rfl
  | failed hm => exact hmove (hnone hm rfl) (by rintro _ _ _ ⟨⟩) rfl rfl rfl
  | batchEnd hm => exact hmove (hnone hm rfl) (by rintro _ _ _ ⟨⟩) rfl rfl rfl
  | listen hm => exact hmove (hnone hm rfl) (by rintro _ _ _ ⟨⟩) rfl rfl rfl
  | hangup hm => exact hmove (hnone hm rfl) (by rintro _ _ _ ⟨⟩; rfl) rfl rfl rfl
  | ready hm => exact hmove (hnone hm rfl) (by rintro _ _ _ ⟨⟩) rfl rfl rfl
  | accepted hm _ _ => exact hmove (hnone hm rfl) (by rintro _ _ _ ⟨⟩) rfl rfl rfl
  | refused hm => exact hmove (hnone hm rfl) (by rintro _ _ _ ⟨⟩) rfl rfl rfl
  | @register fd peerIp rest hm =>
    refine ⟨by rintro _ _ _ ⟨⟩, fun fd' c hc => .inl ?_⟩
    change ((s.timers.addOrUpdate fd (s.now + idle)).deadline fd').isSome = true
    rw [TimerHeap.deadline_addOrUpdate]
    split_ifs with hfd
    · rfl
    · change (s.connections.insert fd s.next).lookup fd' = some c at hc
      rw [Finmap.lookup_insert_of_ne _ hfd] at hc
      exact (hs.timer fd' c hc).resolve_right fun hmem => by rw [hm] at hmem; cases hmem
  | add hm => exact hmove (hnone hm rfl) (by rintro _ _ _ ⟨⟩) rfl rfl rfl
  | gone hm _ => exact hmove (hnone hm rfl) (by rintro _ _ _ ⟨⟩) rfl rfl rfl
  | dispatch hm _ => exact hmove (hnone hm rfl) (by rintro _ _ _ ⟨⟩) rfl rfl rfl
  | begin hm _ _ => exact hmove (hnone hm rfl) (by rintro _ _ _ ⟨⟩) rfl rfl rfl
  | discard hm _ => exact hmove (hnone hm rfl) (by rintro _ _ _ ⟨⟩) rfl rfl rfl
  | enqueue hm => exact hmove (hnone hm rfl) (by rintro _ _ _ ⟨⟩) rfl rfl rfl
  | close hm hperform => exact hs.close hm hperform
  | idle hm =>
    refine ⟨by rintro _ _ _ ⟨⟩, fun fd c hc => ?_⟩
    -- what leaves the heap is in the list of what is closed next
    change ((s.timers.popExpired s.now).2.deadline fd).isSome = true ∨
      fd ∈ (s.timers.popExpired s.now).1
    rw [TimerHeap.popExpired, TimerHeap.popLoop_deadline]
    split_ifs with hfd
    · exact .inr hfd
    · exact .inl ((hs.timer fd c hc).resolve_right fun hmem => by rw [hm] at hmem; cases hmem)
  | idleEnd hm => exact hmove (hnone hm rfl) (by rintro _ _ _ ⟨⟩) rfl rfl rfl
  | @idleNext fd rest hm =>
    refine hmove (m := .closing fd .closeBegin (.idle rest)) ?_ (by rintro _ _ _ ⟨⟩; rfl)
      rfl rfl rfl
    rw [hm]
    exact List.Subset.refl _
  | stop hm => exact hmove (hnone hm rfl) (by rintro _ _ _ ⟨⟩) rfl rfl rfl
  | join hm _ _ => exact hmove (hnone hm rfl) (by rintro _ _ _ ⟨⟩) rfl rfl rfl
  | shutdown hm =>
    refine ⟨by rintro _ _ _ ⟨⟩, fun fd c hc => ?_⟩
    change (∅ : Finmap fun _ : Fd => ConnId).lookup fd = some c at hc
    rw [Finmap.lookup_empty] at hc
    cases hc

theorem HasTimers.step {s s' : HttpServer Q} {l : Label} (hs : HasTimers s)
    (h : s.step reply idle l = some s') : HasTimers s' := by
  cases l with
  | tick d => cases h; exact hs.of_same rfl rfl hs.closing (List.Subset.refl _)
  | requestStop => cases h; exact hs.of_same rfl rfl hs.closing (List.Subset.refl _)
  | main r => exact hs.main (mainStep_cases h)
  | start =>
    obtain ⟨t, queue, -, rfl⟩ := start_cases h
    exact hs.of_same rfl rfl hs.closing (List.Subset.refl _)
  | task i r =>
    obtain ⟨l₁, t, l₂, s₁, pc, -, -, hperform, rfl⟩ := taskStep_cases h
    have hmain : s₁.main = s.main := by rw [perform_eq hperform]
    refine ⟨by rw [hmain]; exact hs.closing, fun fd c hc => ?_⟩
    rw [hmain]
    obtain ⟨hc', htimer⟩ := (perform_tables hperform).timer hc
    exact (hs.timer fd c hc').imp htimer id

/-- **No connection escapes the idle timer.**  In every reachable state every registered descriptor
has a deadline or is in the list that `closeIdleConnections` is closing; outside
`closeIdleConnections` every registered descriptor has a deadline. -/
theorem registered_has_deadline {s : HttpServer Q} (h : (lts reply idle).Reachable s) :
    (∀ fd c, s.connections.lookup fd = some c →
      (s.timers.deadline fd).isSome = true ∨ fd ∈ s.main.expiring) ∧
    (s.main.inIdle = false → ∀ fd c, s.connections.lookup fd = some c →
      (s.timers.deadline fd).isSome = true) := by
  have hinv : HasTimers s := by
    refine h.invariant ⟨by rintro _ _ _ ⟨⟩, fun fd c hc => ?_⟩ fun _ _ _ _ hs _ => hs.step
    change (∅ : Finmap fun _ : Fd => ConnId).lookup fd = some c at hc
    rw [Finmap.lookup_empty] at hc
    cases hc
  refine ⟨hinv.timer, fun hm fd c hc => (hinv.timer fd c hc).resolve_right fun hfd => ?_⟩
  rw [Main.expiring_of_not_inIdle hm] at hfd
  cases hfd

theorem registered_has_deadline_sample : ∃ s, sample.Reachable s ∧
    s.connections.lookup 5 = some 0 ∧ (s.timers.deadline 5).isSome = true := by
  obtain ⟨s, hrun, hm, hc⟩ : ∃ s ∈ sample.run sample.init dispatchRun,
      s.main.inIdle = false ∧ s.connections.lookup 5 = some 0 := by decide +kernel
  have h := LTS.reachable_of_run hrun
  exact ⟨s, h, hc, (registered_has_deadline h).2 hm 5 0 hc⟩

end HttpServer

end MiniServer
