import MiniServer.Server.Steps

/-!
# Activity and the idle timer

The deadline of a connection is refreshed at two places: behind the loop of `handleRead` and behind
the loop of `handleWrite`.  Bytes move inside these loops, and `handleWrite` leaves its loop through
the branch for `EAGAIN` without a refresh.

`Refreshed` is the condition on a step under which this does no harm: before `popExpired` the bytes
on every socket with a passed deadline are refreshed, and no byte moves on a socket that it has
taken. `quiet_of_refreshed` proves for every run of such steps that only quiet connections are
closed as idle, and `active_closed` is a run that cuts off a response one tick after a partial
write.
-/

namespace MiniServer

/-- The descriptors that `closeIdleConnections` has taken out of the timers and not yet closed. -/
def Main.idleFds : Main → List Fd
  | .expired rest => rest
  | .closing fd _ (.idle rest) => fd :: rest
  | _ => []

theorem Caller.idleFds_main (caller : Caller) (fd : Fd) (pc : Pc ConnId) :
    caller.main.idleFds ⊆ (Main.closing fd pc caller).idleFds := by
  cases caller with
  | events rest => exact List.nil_subset _
  | idle rest => exact List.subset_cons_self fd rest

namespace HttpServer

variable {Q : Type}

/-! ### The property -/

/-- The connections that are being closed as idle have moved no byte for the idle timeout. -/
def QuietWhenIdle (idle : ℕ) (s : HttpServer Q) : Prop :=
  ∀ fd pc rest, s.main = .closing fd pc (.idle rest) →
    ∀ f t, s.files fd = some f → f.lastMoved = some t → t + idle ≤ s.now

/-! ### What a step does to the record of the bytes -/

theorem files_updateFile {s : HttpServer Q} {fd fd' : Fd} {g : File → File} {f' : File}
    (h : (s.updateFile fd g).files fd' = some f') :
    ∃ f, s.files fd' = some f ∧ f' = if fd' = fd then g f else f := by
  simp only [updateFile] at h
  by_cases hfd : fd' = fd
  · subst hfd
    rw [Function.update_self, Option.map_eq_some_iff] at h
    obtain ⟨f, hf, rfl⟩ := h
    exact ⟨f, hf, by rw [if_pos rfl]⟩
  · rw [Function.update_of_ne hfd] at h
    exact ⟨f', h, by rw [if_neg hfd]⟩

/-- Every open file has the record that it had, or is new. -/
def SameRecord (s s' : HttpServer Q) : Prop :=
  ∀ fd f', s'.files fd = some f' → f'.lastMoved = none ∨
    ∃ f, s.files fd = some f ∧ f'.lastMoved = f.lastMoved ∧ f'.unrefreshed = f.unrefreshed

theorem SameRecord.of_eq {s s' : HttpServer Q} (h : s'.files = s.files) : SameRecord s s' :=
  fun _ f' hf' => .inr ⟨f', h ▸ hf', rfl, rfl⟩

theorem SameRecord.trans {s s₁ s' : HttpServer Q} (h : SameRecord s s₁) (h' : SameRecord s₁ s') :
    SameRecord s s' := by
  intro fd f' hf'
  rcases h' fd f' hf' with hnone | ⟨f₁, hf₁, hio, hun⟩
  · exact .inl hnone
  · rw [hio, hun]
    exact h fd f₁ hf₁

theorem SameRecord.updateFile (s : HttpServer Q) (fd : Fd) {g : File → File}
    (hio : ∀ f, (g f).lastMoved = f.lastMoved) (hun : ∀ f, (g f).unrefreshed = f.unrefreshed) :
    SameRecord s (s.updateFile fd g) := by
  intro fd' f' hf'
  obtain ⟨f, hf, rfl⟩ := files_updateFile hf'
  refine .inr ⟨f, hf, ?_⟩
  split_ifs
  · exact ⟨hio f, hun f⟩
  · exact ⟨rfl, rfl⟩

theorem SameRecord.closeFile (s : HttpServer Q) (fd : Fd) :
    SameRecord s (s.closeFile fd) := by
  intro fd' f' hf'
  change Function.update s.files fd none fd' = some f' at hf'
  by_cases hfd : fd' = fd
  · subst hfd
    rw [Function.update_self] at hf'
    cases hf'
  · rw [Function.update_of_ne hfd] at hf'
    exact .inr ⟨f', hf', rfl, rfl⟩

theorem SameRecord.deliverAll {s s' : HttpServer Q} {evs : List Event}
    (h : s.deliverAll evs = some s') : SameRecord s s' := by
  induction evs generalizing s with
  | nil => cases h; exact .of_eq rfl
  | cons ev evs ih =>
    obtain ⟨s₁, hev, h⟩ := Option.bind_eq_some_iff.1 h
    refine SameRecord.trans ?_ (ih h)
    unfold deliver at hev
    split at hev
    · cases hev; exact .of_eq rfl
    · split at hev
      · split_ifs at hev
        cases hev
        exact .updateFile s _ (fun _ => rfl) fun _ => rfl
      · cases hev

/-! ### The invariant -/

/-- The deadlines lie behind the bytes that have been refreshed. -/
structure Covered (idle : ℕ) (s : HttpServer Q) : Prop where
  past : ∀ fd f t, s.files fd = some f → f.lastMoved = some t → t ≤ s.now
  deadline : ∀ fd f t d, s.files fd = some f → f.lastMoved = some t → f.unrefreshed = false →
    s.timers.deadline fd = some d → t + idle ≤ d
  quiet : ∀ fd ∈ s.main.idleFds, ∀ f t, s.files fd = some f → f.lastMoved = some t →
    t + idle ≤ s.now

/-- A step that moves no byte, sets no deadline and takes no descriptor out of the timers. -/
theorem Covered.of_same {idle : ℕ} {s s' : HttpServer Q} (hs : Covered idle s)
    (hfiles : SameRecord s s')
    (htimers : ∀ fd d, s'.timers.deadline fd = some d → s.timers.deadline fd = some d)
    (hnow : s.now ≤ s'.now) (hsub : s'.main.idleFds ⊆ s.main.idleFds) : Covered idle s' := by
  have hrecord : ∀ fd f' t, s'.files fd = some f' → f'.lastMoved = some t →
      ∃ f, s.files fd = some f ∧ f.lastMoved = some t ∧ f'.unrefreshed = f.unrefreshed := by
    intro fd f' t hf' ht
    rcases hfiles fd f' hf' with hnone | ⟨f, hf, hio, hun⟩
    · rw [hnone] at ht
      cases ht
    · exact ⟨f, hf, hio ▸ ht, hun⟩
  refine ⟨fun fd f' t hf' ht => ?_, fun fd f' t d hf' ht hun hd => ?_,
    fun fd hfd f' t hf' ht => ?_⟩
  · obtain ⟨f, hf, hio, -⟩ := hrecord fd f' t hf' ht
    exact (hs.past fd f t hf hio).trans hnow
  · obtain ⟨f, hf, hio, hun'⟩ := hrecord fd f' t hf' ht
    exact hs.deadline fd f t d hf hio (hun' ▸ hun) (htimers fd d hd)
  · obtain ⟨f, hf, hio, -⟩ := hrecord fd f' t hf' ht
    exact (hs.quiet fd (hsub hfd) f t hf hio).trans hnow

theorem Covered.moveBytes {idle : ℕ} {s : HttpServer Q} (hs : Covered idle s) {fd : Fd}
    (hfd : fd ∉ s.main.idleFds) : Covered idle (s.moveBytes fd) := by
  refine ⟨fun fd' f' t hf' ht => ?_, fun fd' f' t d hf' ht hun hd => ?_,
    fun fd' hmem f' t hf' ht => ?_⟩ <;> obtain ⟨f, hf, rfl⟩ := files_updateFile hf'
  · split_ifs at ht
    · cases ht
      exact le_refl s.now
    · exact hs.past fd' f t hf ht
  · split_ifs at ht hun
    exact hs.deadline fd' f t d hf ht hun hd
  · have hne : fd' ≠ fd := by
      rintro rfl
      exact hfd hmem
    rw [if_neg hne] at ht
    exact hs.quiet fd' hmem f t hf ht

section Step

variable [PriorityQueue Q (TimerHeap.Node Fd ℕ) TimerHeap.later]
variable {reply : Bytes → Answer} {idle : ℕ}

/-! ### The condition -/

/-- Before `popExpired` the bytes on every socket with a passed deadline are refreshed, and no byte
moves on a socket that it has taken. -/
def Refreshed (s : HttpServer Q) : Label → Prop
  | .main .done => s.main = .idle → ∀ fd ∈ s.timers.latest.keys,
      (∃ d ∈ s.timers.deadline fd, d ≤ s.now) → ∀ f ∈ s.files fd, f.unrefreshed = false
  | .task i r => r.movesBytes = true → ∀ t ∈ s.tasks[i]?, t.fd ∉ s.main.idleFds
  | _ => True

instance (s : HttpServer Q) : (l : Label) → Decidable (Refreshed s l)
  | .main .done => inferInstanceAs (Decidable (s.main = .idle → ∀ fd ∈ s.timers.latest.keys,
      (∃ d ∈ s.timers.deadline fd, d ≤ s.now) → ∀ f ∈ s.files fd, f.unrefreshed = false))
  | .task i r =>
    inferInstanceAs (Decidable (r.movesBytes = true → ∀ t ∈ s.tasks[i]?, t.fd ∉ s.main.idleFds))
  | .main (.events _) | .main .interrupted | .main .failed | .main (.accepted _ _)
  | .main .refused | .tick _ | .requestStop | .start => inferInstanceAs (Decidable True)

/-! ### Every step keeps the invariant -/

/-- A deadline that is set lies behind every byte that has moved. -/
theorem Covered.set_deadline {s s' : HttpServer Q} (hs : Covered idle s) (fd : Fd)
    (hnow : s'.now = s.now) (htimers : s'.timers = s.timers.addOrUpdate fd (s.now + idle))
    (hfiles : ∀ fd' f', s'.files fd' = some f' → ∃ f, s.files fd' = some f ∧
      f'.lastMoved = f.lastMoved ∧ (fd' ≠ fd → f'.unrefreshed = f.unrefreshed))
    (hsub : s'.main.idleFds ⊆ s.main.idleFds) : Covered idle s' := by
  refine ⟨fun fd' f' t hf' ht => ?_, fun fd' f' t d hf' ht hun hd => ?_,
    fun fd' hmem f' t hf' ht => ?_⟩ <;> obtain ⟨f, hf, hio, hun'⟩ := hfiles fd' f' hf'
  · rw [hnow]
    exact hs.past fd' f t hf (hio ▸ ht)
  · rw [htimers, TimerHeap.deadline_addOrUpdate] at hd
    split_ifs at hd with hfd
    · cases hd
      exact Nat.add_le_add_right (hs.past fd' f t hf (hio ▸ ht)) idle
    · exact hs.deadline fd' f t d hf (hio ▸ ht) (hun' hfd ▸ hun) hd
  · rw [hnow]
    exact hs.quiet fd' (hsub hmem) f t hf (hio ▸ ht)

theorem Covered.perform {s s' : HttpServer Q} (hs : Covered idle s) {fd : Fd}
    {a : Action ConnId} {r : Sys} {pc : Option (Pc ConnId)}
    (h : s.perform idle fd a r = some (s', pc))
    (hsafe : r.movesBytes = true → fd ∉ s.main.idleFds) : Covered idle s' := by
  have hsame : ∀ {s' : HttpServer Q}, SameRecord s s' → s'.timers = s.timers → s'.now = s.now →
      s'.main = s.main → Covered idle s' := by
    intro s' hfiles htimers hnow hmain
    exact hs.of_same hfiles (fun fd d hd => htimers ▸ hd) hnow.ge
      (by rw [hmain]; exact fun _ h => h)
  cases perform_cases h with
  | readData _ =>
    exact (hs.moveBytes (hsafe rfl)).of_same (.of_eq rfl) (fun _ _ hd => hd) le_rfl fun _ h => h
  | wrote _ _ =>
    exact (hs.moveBytes (hsafe rfl)).of_same (.of_eq rfl) (fun _ _ hd => hd) le_rfl fun _ h => h
  | lockedArm _ =>
    exact hsame (.updateFile (s.setConn _ _) fd (fun _ => rfl) fun _ => rfl) rfl rfl rfl
  | refresh =>
    refine hs.set_deadline fd rfl rfl (fun fd' f' hf' => ?_) fun _ h => h
    obtain ⟨f, hf, rfl⟩ := files_updateFile hf'
    refine ⟨f, hf, ?_, fun hfd => by rw [if_neg hfd]⟩
    split_ifs <;> rfl
  | mod => exact hsame (.updateFile s fd (fun _ => rfl) fun _ => rfl) rfl rfl rfl
  | erase _ =>
    refine hs.of_same (.of_eq rfl) (fun fd' d hd => ?_) le_rfl fun _ h => h
    simp only [TimerHeap.deadline_remove] at hd
    split_ifs at hd
    exact hd
  | del => exact hsame (.updateFile s fd (fun _ => rfl) fun _ => rfl) rfl rfl rfl
  | close => exact hsame (.closeFile s fd) rfl rfl rfl
  | _ => exact hsame (.of_eq rfl) rfl rfl rfl

theorem Covered.main {s s' : HttpServer Q} {r : MainSys} (hs : Covered idle s)
    (h : MainCase reply idle s r s')
    (hsafe : s.main = .idle → ∀ fd ∈ s.timers.latest.keys,
      (∃ d ∈ s.timers.deadline fd, d ≤ s.now) → ∀ f ∈ s.files fd, f.unrefreshed = false) :
    Covered idle s' := by
  -- most steps leave the timers and the moved bytes alone
  have hmove : ∀ {s' : HttpServer Q}, SameRecord s s' → s'.timers = s.timers → s'.now = s.now →
      s'.main.idleFds ⊆ s.main.idleFds → Covered idle s' := by
    intro s' hfiles htimers hnow hsub
    exact hs.of_same hfiles (fun fd d hd => htimers ▸ hd) hnow.ge hsub
  have hnil := @List.nil_subset Fd s.main.idleFds
  cases h with
  | loop hm => exact hmove (.of_eq rfl) rfl rfl (by dsimp only; split_ifs <;> exact hnil)
  | wait hm hev =>
    have hrecord := SameRecord.deliverAll hev
    obtain ⟨files, rfl⟩ := deliverAll_eq hev
    exact hmove hrecord rfl rfl hnil
  | @accepted fd ip rest hm _ _ =>
    refine hmove (fun fd' f' hf' => ?_) rfl rfl hnil
    change Function.update s.files fd _ fd' = some f' at hf'
    by_cases hfd : fd' = fd
    · subst hfd
      rw [Function.update_self, Option.some.injEq] at hf'
      exact .inl (by rw [← hf'])
    · rw [Function.update_of_ne hfd] at hf'
      exact .inr ⟨f', hf', rfl, rfl⟩
  | @register fd ip rest hm =>
    exact hs.set_deadline fd rfl rfl (fun fd' f' hf' => ⟨f', hf', rfl, fun _ => rfl⟩) hnil
  | add hm => exact hmove (.updateFile s _ (fun _ => rfl) fun _ => rfl) rfl rfl hnil
  | @close fd pc caller s₁ pc' hm hperform =>
    have hclosed : Covered idle s₁ :=
      hs.perform hperform fun hr => absurd hr (by simp [Sys.movesBytes])
    have hmain : s₁.main = s.main := by rw [perform_eq hperform]
    refine hclosed.of_same (.of_eq rfl) (fun _ _ hd => hd) le_rfl ?_
    rw [hmain, hm]
    cases pc' with
    | none => exact caller.idleFds_main fd pc
    | some q => cases caller <;> exact fun _ h => h
  | idle hm =>
    refine ⟨hs.past, fun fd f t d hf ht hun hd => ?_, fun fd hfd f t hf ht => ?_⟩
    · change (s.timers.popExpired s.now).2.deadline fd = some d at hd
      rw [TimerHeap.popExpired, TimerHeap.popLoop_deadline] at hd
      split_ifs at hd
      exact hs.deadline fd f t d hf ht hun hd
    · -- the deadline has passed, and the bytes are refreshed
      obtain ⟨d, hd, hdue⟩ := TimerHeap.popLoop_due hfd
      have hkey : fd ∈ s.timers.latest.keys :=
        Finmap.mem_keys.2 (TimerHeap.mem_latest_iff.2 (by rw [hd]; rfl))
      exact (hs.deadline fd f t d hf ht (hsafe hm fd hkey ⟨d, hd, hdue⟩ f hf) hd).trans hdue
  | @idleNext fd rest hm =>
    refine hmove (.of_eq rfl) rfl rfl ?_
    rw [hm]
    exact fun _ h => h
  | @shutdown hm =>
    refine hmove (fun fd f' hf' => ?_) rfl rfl hnil
    change (if fd ∈ s.connections then none else s.files fd) = some f' at hf'
    split_ifs at hf'
    exact .inr ⟨f', hf', rfl, rfl⟩
  | _ => exact hmove (.of_eq rfl) rfl rfl hnil

theorem Covered.step {s s' : HttpServer Q} {l : Label} (hs : Covered idle s)
    (hsafe : Refreshed s l) (h : s.step reply idle l = some s') : Covered idle s' := by
  cases l with
  | tick d =>
    cases h
    exact hs.of_same (.of_eq rfl) (fun _ _ hd => hd) (Nat.le_add_right _ _) fun _ h => h
  | requestStop => cases h; exact hs.of_same (.of_eq rfl) (fun _ _ hd => hd) le_rfl fun _ h => h
  | main r =>
    refine hs.main (mainStep_cases h) fun hm => ?_
    cases r with
    | done => exact hsafe hm
    | _ => simp [HttpServer.step, mainStep, hm] at h
  | start =>
    obtain ⟨t, queue, -, rfl⟩ := start_cases h
    exact hs.of_same (.of_eq rfl) (fun _ _ hd => hd) le_rfl fun _ h => h
  | task i r =>
    obtain ⟨l₁, t, l₂, s₁, pc, -, hi, hperform, rfl⟩ := taskStep_cases h
    have hclosed : Covered idle s₁ := hs.perform hperform fun hr => hsafe hr t hi
    exact hclosed.of_same (.of_eq rfl) (fun _ _ hd => hd) le_rfl fun _ h => h

/-- **Activity keeps a connection alive.**  In a run that takes only refreshed descriptors out of
the timers, a connection that is being closed as idle has moved no byte for the idle timeout. -/
theorem quiet_of_refreshed {s : HttpServer Q} (h : (lts reply idle).ReachableIf Refreshed s) :
    QuietWhenIdle idle s := by
  have hinv : Covered idle s := by
    refine h.invariant ⟨?_, ?_, ?_⟩ fun _ _ _ _ hs hsafe => hs.step hsafe
    · rintro _ _ _ ⟨⟩
    · rintro _ _ _ _ ⟨⟩
    · rintro _ ⟨⟩
  intro fd pc rest hm
  exact hinv.quiet fd (by rw [hm]; exact List.mem_cons_self)

/-- A malformed request is answered with 400, and the response waits in the buffer of the
connection. -/
def answeredRun : List Label :=
  dispatchRun ++ [.start, .task 0 .done, .task 0 (.read (.data (.ofString "\r\n\r\n"))),
    .task 0 .done, .task 0 (.read .again), .task 0 .done, .task 0 .done, .task 0 .done,
    .task 0 .done, .task 0 .done, .task 0 .done, .task 0 .done]

/-- The client never reads; its connection is closed as idle after 30. -/
def idleRun : List Label :=
  answeredRun ++ [.tick 30, .main .done, .main .done, .main .done]

theorem quiet_of_refreshed_idle : ∃ s, sample.ReachableIf Refreshed s ∧
    s.main = .closing 5 .closeBegin (.idle []) ∧ QuietWhenIdle 30 s := by
  have hsafe : sample.Allowed Refreshed sample.init idleRun := by decide +kernel
  obtain ⟨s, hrun, hm⟩ : ∃ s ∈ sample.run sample.init idleRun,
      s.main = .closing 5 .closeBegin (.idle []) := by decide +kernel
  have h := LTS.ReachableIf.run .init hsafe hrun
  exact ⟨s, h, hm, quiet_of_refreshed h⟩

/-- The client takes one byte of the response after 29, and `writev` finds the socket full. -/
def partialRun : List Label :=
  answeredRun ++ [.main .done, .main .done, .main .done, .main .done,
    .main (.events [.client 5 .output]), .main .done, .main .done, .main .done, .main .done,
    .start, .tick 29, .task 0 .done, .task 0 .done, .task 0 (.write (.wrote 1)), .task 0 .done,
    .task 0 .done, .task 0 (.write .again), .task 0 .done, .task 0 .done,
    .tick 1, .main .done, .main .done, .main .done]

/-- **A response is cut off.**  One tick after the socket took a byte of the response the connection
is closed as idle. -/
theorem active_closed : ∃ s, sample.run sample.init partialRun = some s ∧ sample.Reachable s ∧
    ¬ QuietWhenIdle 30 s := by
  obtain ⟨s, hrun, hm, hio, hnow⟩ : ∃ s ∈ sample.run sample.init partialRun,
      s.main = .closing 5 .closeBegin (.idle []) ∧
        (s.files 5).bind File.lastMoved = some 29 ∧ s.now = 30 := by decide +kernel
  refine ⟨s, hrun, LTS.reachable_of_run hrun, fun h => ?_⟩
  obtain ⟨f, hf, hlast⟩ := Option.bind_eq_some_iff.1 hio
  have hquiet := h 5 .closeBegin [] hm f 29 hf hlast
  rw [hnow] at hquiet
  exact absurd hquiet (by decide)

end Step

end HttpServer

end MiniServer
