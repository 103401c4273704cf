import MiniServer.LTS.Record
import MiniServer.Server.Tokens

/-!
# Every accepted socket is closed exactly once

Five causes on two kinds of threads end in `closeConnection`, and `stop` closes what is left.  The
section of `closeConnection` that erases the entry of a number decides who calls `close`: an open
descriptor is in the table, or the main thread is about to put it there, or exactly one thread is
between its section and its `close` (`Closable.balance`).  This holds in every run, also when
`accept` returns a number that tasks of an earlier connection still use.

The ledger of a run is the list of the connections for which `close` was called, `none` for a call
on a number that is not open.
-/

namespace MiniServer

/-- The main thread is about to put the descriptor into the table, or to close it. -/
def Main.holds (fd : Fd) : Main → Bool
  | .register fd' _ _ => fd' = fd
  | .closing fd' pc _ => fd' = fd && pc.pastErase
  | _ => false

/-- The task is about to close the descriptor. -/
def Task.closes (fd : Fd) (t : Task) : Bool := t.fd = fd && t.pc.pastErase

namespace HttpServer

variable {Q : Type}

/-- The descriptors that a step calls `close` on. -/
def closeCalls (s : HttpServer Q) : Label → Multiset Fd
  | .task i _ =>
    match s.tasks[i]? with
    | some t => if t.pc = .close then {t.fd} else 0
    | none => 0
  | .main _ =>
    match s.main with
    | .closing fd .close _ => {fd}
    | .shutdown => s.connections.keys.val
    | _ => 0
  | _ => 0

/-- The ledger of the calls of `close`. -/
def closeLedger (m : Multiset (Option ConnId)) (s : HttpServer Q) (l : Label) :
    Multiset (Option ConnId) := m + (s.closeCalls l).map s.owner

/-- `accept` has returned a descriptor for this connection. -/
def Accepted (s : HttpServer Q) (c : ConnId) : Prop :=
  c < s.next ∨ c = s.next ∧ ∃ fd ip rest, s.main = .register fd ip rest

/-- How many hold the descriptor: the table and the threads that are about to put it there or to
close it. -/
def holders (s : HttpServer Q) (fd : Fd) : ℕ :=
  (s.connections.lookup fd).isSome.toNat + (s.main.holds fd).toNat +
    (s.queue ++ s.tasks).countP (Task.closes fd)

/-- An open descriptor has one holder, and belongs to one connection. -/
structure Closable (s : HttpServer Q) : Prop where
  balance : ∀ fd, s.holders fd = (s.owner fd).isSome.toNat
  inj : ∀ fd fd' c, s.owner fd = some c → s.owner fd' = some c → fd = fd'
  accepted : ∀ fd c, s.owner fd = some c → s.Accepted c
  joined : s.main = .shutdown ∨ s.main = .stopped → s.queue = [] ∧ s.tasks = []
  emptied : s.main = .stopped → s.connections = ∅

open Classical in
/-- `close` was called once for every accepted connection whose descriptor is not open. -/
structure Ledger (s : HttpServer Q) (m : Multiset (Option ConnId)) : Prop where
  open_ : none ∉ m
  balance : ∀ c, m.count (some c) + (if ∃ fd, s.owner fd = some c then 1 else 0) =
    if s.Accepted c then 1 else 0

/-! ### One step -/

theorem Closable.open_of_holds {s : HttpServer Q} (hs : Closable s) {fd : Fd}
    (h : 1 ≤ s.holders fd) : (s.owner fd).isSome = true := by
  rw [hs.balance fd] at h
  cases hopen : (s.owner fd).isSome with
  | true => rfl
  | false => rw [hopen] at h; cases h

/-- `handleAccept` never overwrites an entry. -/
theorem Closable.lookup_of_register {s : HttpServer Q} (hs : Closable s) {fd : Fd}
    {peerIp : Bytes} {rest : List Event} (hm : s.main = .register fd peerIp rest) :
    s.connections.lookup fd = none := by
  have hbalance := hs.balance fd
  have hle := Bool.toNat_le (s.owner fd).isSome
  rw [← Option.not_isSome_iff_eq_none]
  intro hlisted
  simp only [holders, hm, hlisted, Main.holds, decide_true, Bool.toNat_true] at hbalance
  omega

/-- Only descriptors that are open are closed. -/
theorem Closable.open_of_mem_closeCalls {s : HttpServer Q} (hs : Closable s) {l : Label} {fd : Fd}
    (h : fd ∈ s.closeCalls l) : (s.owner fd).isSome = true := by
  refine hs.open_of_holds ?_
  unfold closeCalls at h
  split at h
  · split at h
    · rename_i t hi
      split_ifs at h with hpc
      · obtain rfl := Multiset.mem_singleton.1 h
        have ht : t ∈ s.queue ++ s.tasks := List.mem_append_right _ (List.mem_of_getElem? hi)
        have hcount : 0 < (s.queue ++ s.tasks).countP (Task.closes t.fd) :=
          List.countP_pos_iff.2 ⟨t, ht, by simp [Task.closes, hpc, Pc.pastErase]⟩
        unfold holders
        omega
      · cases Multiset.notMem_zero _ h
    · cases Multiset.notMem_zero _ h
  · split at h
    · rename_i hm
      obtain rfl := Multiset.mem_singleton.1 h
      simp [holders, hm, Main.holds, Pc.pastErase]
      omega
    · have hlisted : (s.connections.lookup fd).isSome = true :=
        Finmap.lookup_isSome.2 (Finmap.mem_keys.1 h)
      simp [holders, hlisted]
      omega
    · cases Multiset.notMem_zero _ h
  · cases Multiset.notMem_zero _ h

theorem closeCalls_nodup (s : HttpServer Q) (l : Label) : (s.closeCalls l).Nodup := by
  unfold closeCalls
  split
  · split
    · split_ifs
      · exact Multiset.nodup_singleton _
      · exact Multiset.nodup_zero
    · exact Multiset.nodup_zero
  · split
    · exact Multiset.nodup_singleton _
    · exact s.connections.keys.nodup
    · exact Multiset.nodup_zero
  · exact Multiset.nodup_zero

/-- A step that moves no holder. -/
theorem Closable.move {s s' : HttpServer Q} (hs : Closable s) (howner : s'.owner = s.owner)
    (hconn : s'.connections = s.connections)
    (htasks : ∀ fd, (s'.queue ++ s'.tasks).countP (Task.closes fd) =
      (s.queue ++ s.tasks).countP (Task.closes fd))
    (hholds : ∀ fd, s'.main.holds fd = s.main.holds fd)
    (haccepted : ∀ c, s.Accepted c → s'.Accepted c)
    (hjoined : s'.main = .shutdown ∨ s'.main = .stopped → s'.queue = [] ∧ s'.tasks = [])
    (hemptied : s'.main = .stopped → s.connections = ∅) : Closable s' where
  balance fd := by
    rw [holders, howner, hconn, htasks, hholds]
    exact hs.balance fd
  inj := by
    rw [howner]
    exact hs.inj
  accepted fd c hc := haccepted c (hs.accepted fd c (howner ▸ hc))
  joined := hjoined
  emptied hm := hconn.trans (hemptied hm)

theorem Closable.accept {s : HttpServer Q} (hs : Closable s) {fd : Fd} {peerIp : Bytes}
    {rest : List Event} (hm : s.main = .accept rest) (hfree : s.files fd = none) :
    Closable { s with
      files := Function.update s.files fd (some { owner := s.next })
      latest := Function.update s.latest fd (some s.next)
      main := .register fd peerIp rest } := by
  generalize hs' : ({ s with
      files := Function.update s.files fd (some { owner := s.next })
      latest := Function.update s.latest fd (some s.next)
      main := .register fd peerIp rest } : HttpServer Q) = s'
  have howner : s'.owner = Function.update s.owner fd (some s.next) := by
    rw [← hs']
    exact owner_update s fd _
  have hnone : s.owner fd = none := by rw [owner, hfree]; rfl
  -- the number of the new connection is larger than every one in use
  have hlt : ∀ {fd' c}, s.owner fd' = some c → c < s.next := by
    intro fd' c hc
    refine (hs.accepted fd' c hc).resolve_right ?_
    rintro ⟨-, _, _, _, hm'⟩
    rw [hm] at hm'
    cases hm'
  have hcases : ∀ {fd' c}, s'.owner fd' = some c →
      (fd' = fd ∧ c = s.next) ∨ s.owner fd' = some c := by
    intro fd' c hc
    rw [howner] at hc
    by_cases hfd : fd' = fd
    · subst hfd
      rw [Function.update_self, Option.some.injEq] at hc
      exact .inl ⟨rfl, hc.symm⟩
    · rw [Function.update_of_ne hfd] at hc
      exact .inr hc
  constructor
  case balance =>
    intro fd'
    have hold := hs.balance fd'
    unfold holders at hold ⊢
    rw [howner]
    rw [hm] at hold
    subst hs'
    by_cases hfd : fd' = fd
    · subst hfd
      rw [Function.update_self]
      rw [hnone] at hold
      simp only [Main.holds, Option.isSome_none, Option.isSome_some, Bool.toNat_false,
        Bool.toNat_true, decide_true] at hold ⊢
      omega
    · rw [Function.update_of_ne hfd, ← hold]
      simp [Main.holds, Ne.symm hfd]
  case inj =>
    intro fd' fd'' c hc hc'
    rcases hcases hc with ⟨rfl, rfl⟩ | hc <;> rcases hcases hc' with ⟨rfl, hnext⟩ | hc'
    · rfl
    · exact absurd (hlt hc') (Nat.lt_irrefl _)
    · exact absurd (hnext ▸ hlt hc) (Nat.lt_irrefl _)
    · exact hs.inj fd' fd'' c hc hc'
  case accepted =>
    intro fd' c hc
    subst hs'
    rcases hcases hc with ⟨-, rfl⟩ | hc
    · exact .inr ⟨rfl, fd, peerIp, rest, rfl⟩
    · exact .inl (hlt hc)
  case joined => subst hs'; rintro (hm' | hm') <;> cases hm'
  case emptied => subst hs'; rintro ⟨⟩

theorem owner_closeAll (s : HttpServer Q) (fd : Fd) :
    s.closeAll.owner fd = if fd ∈ s.connections then none else s.owner fd := by
  simp only [owner, closeAll]
  split_ifs <;> rfl

theorem Closable.shutdown {s : HttpServer Q} (hs : Closable s) (hm : s.main = .shutdown) :
    Closable { s.closeAll with main := .stopped } := by
  have hsub : ∀ fd c, s.closeAll.owner fd = some c → s.owner fd = some c := by
    intro fd c hc
    rw [owner_closeAll] at hc
    split_ifs at hc
    exact hc
  obtain ⟨hqueue, htasks⟩ := hs.joined (.inl hm)
  constructor
  case balance =>
    intro fd
    have hold := hs.balance fd
    unfold holders at hold ⊢
    change ((∅ : Finmap fun _ : Fd => ConnId).lookup fd).isSome.toNat + 0 +
      (s.queue ++ s.tasks).countP _ = (s.closeAll.owner fd).isSome.toNat
    rw [hqueue, htasks, hm] at hold
    rw [hqueue, htasks, owner_closeAll, Finmap.lookup_empty]
    split_ifs with hmem
    · rfl
    · rw [Finmap.lookup_eq_none.2 hmem] at hold
      exact hold
  case inj => exact fun fd fd' c hc hc' => hs.inj fd fd' c (hsub fd c hc) (hsub fd' c hc')
  case accepted =>
    intro fd c hc
    rcases hs.accepted fd c (hsub fd c hc) with hlt | ⟨-, _, _, _, hm'⟩
    · exact .inl hlt
    · rw [hm] at hm'
      cases hm'
  case joined => exact fun _ => ⟨hqueue, htasks⟩
  case emptied => exact fun _ => rfl

/-- What a step does to the open descriptors. -/
inductive OwnerCase (s s' : HttpServer Q) (l : Label) : Prop
  | opened (fd : Fd) : s.closeCalls l = 0 → s.owner fd = none →
      s'.owner = Function.update s.owner fd (some s.next) → ¬ s.Accepted s.next →
      (∀ c, s'.Accepted c ↔ s.Accepted c ∨ c = s.next) → OwnerCase s s' l
  | closed : (∀ fd, s'.owner fd = if fd ∈ s.closeCalls l then none else s.owner fd) →
      (∀ c, s'.Accepted c ↔ s.Accepted c) → OwnerCase s s' l

/-- A step that opens and closes nothing. -/
theorem OwnerCase.same {s s' : HttpServer Q} {l : Label} (hcalls : s.closeCalls l = 0)
    (howner : s'.owner = s.owner) (hnext : s'.next = s.next)
    (hmain : (∃ fd ip rest, s'.main = .register fd ip rest) ↔
      ∃ fd ip rest, s.main = .register fd ip rest) : OwnerCase s s' l := by
  refine .closed (fun fd => ?_) fun c => ?_
  · rw [hcalls, if_neg (Multiset.notMem_zero fd), howner]
  · rw [Accepted, Accepted, hnext, hmain]

open Classical in
theorem Ledger.closed {s s' : HttpServer Q} {m : Multiset (Option ConnId)} (hm : Ledger s m)
    (hs : Closable s) {l : Label}
    (howner : ∀ fd, s'.owner fd = if fd ∈ s.closeCalls l then none else s.owner fd)
    (haccepted : ∀ c, s'.Accepted c ↔ s.Accepted c) : Ledger s' (closeLedger m s l) := by
  have hopen : ∀ fd ∈ s.closeCalls l, (s.owner fd).isSome = true :=
    fun fd => hs.open_of_mem_closeCalls
  -- no connection is closed through two descriptors
  have hinj : ∀ fd ∈ s.closeCalls l, ∀ fd' ∈ s.closeCalls l, s.owner fd = s.owner fd' →
      fd = fd' := by
    intro fd hfd fd' _ heq
    obtain ⟨c, hc⟩ := Option.isSome_iff_exists.1 (hopen fd hfd)
    exact hs.inj fd fd' c hc (heq ▸ hc)
  have hnodup : ((s.closeCalls l).map s.owner).Nodup :=
    (closeCalls_nodup s l).map_on hinj
  refine ⟨fun hnone => ?_, fun c => ?_⟩
  · rcases Multiset.mem_add.1 hnone with hnone | hnone
    · exact hm.open_ hnone
    · obtain ⟨fd, hfd, hc⟩ := Multiset.mem_map.1 hnone
      have hsome := hopen fd hfd
      rw [hc] at hsome
      cases hsome
  · have hold := hm.balance c
    -- an open connection is closed by this step or stays open
    have hcount : ((s.closeCalls l).map s.owner).count (some c) +
        (if ∃ fd, s'.owner fd = some c then 1 else 0) =
          if ∃ fd, s.owner fd = some c then 1 else 0 := by
      rw [Multiset.count_eq_of_nodup hnodup]
      by_cases hcalled : some c ∈ (s.closeCalls l).map s.owner
      · obtain ⟨fd, hfd, hc⟩ := Multiset.mem_map.1 hcalled
        have hgone : ¬ ∃ fd', s'.owner fd' = some c := by
          rintro ⟨fd', hc'⟩
          rw [howner] at hc'
          split_ifs at hc' with hmem
          exact hmem (hs.inj fd fd' c hc hc' ▸ hfd)
        rw [if_pos hcalled, if_neg hgone, if_pos ⟨fd, hc⟩]
      · have hiff : (∃ fd, s'.owner fd = some c) ↔ ∃ fd, s.owner fd = some c := by
          refine exists_congr fun fd => ?_
          rw [howner]
          split_ifs with hmem
          · simp only [false_iff]
            exact fun hc => hcalled (Multiset.mem_map.2 ⟨fd, hmem, hc⟩)
          · rfl
        rw [if_neg hcalled]
        simp only [hiff, Nat.zero_add]
    unfold closeLedger
    rw [Multiset.count_add]
    simp only [haccepted]
    omega

open Classical in
theorem Ledger.opened {s s' : HttpServer Q} {m : Multiset (Option ConnId)} (hm : Ledger s m)
    (hs : Closable s) {fd : Fd} (hnone : s.owner fd = none)
    (howner : s'.owner = Function.update s.owner fd (some s.next)) (hnew : ¬ s.Accepted s.next)
    (haccepted : ∀ c, s'.Accepted c ↔ s.Accepted c ∨ c = s.next) : Ledger s' m := by
  refine ⟨hm.open_, fun c => ?_⟩
  have hold := hm.balance c
  by_cases hc : c = s.next
  · subst hc
    have hunowned : ¬ ∃ fd', s.owner fd' = some s.next := by
      rintro ⟨fd', h⟩
      exact hnew (hs.accepted fd' _ h)
    rw [if_neg hunowned, if_neg hnew] at hold
    rw [if_pos ⟨fd, by rw [howner, Function.update_self]⟩, if_pos ((haccepted _).2 (.inr rfl))]
    omega
  · have hiff : (∃ fd', s'.owner fd' = some c) ↔ ∃ fd', s.owner fd' = some c := by
      refine exists_congr fun fd' => ?_
      rw [howner]
      by_cases hfd : fd' = fd
      · subst hfd
        simp [hnone, Ne.symm hc]
      · rw [Function.update_of_ne hfd]
    simp only [hiff, haccepted, hc, or_false]
    exact hold

section Step

variable [PriorityQueue Q (TimerHeap.Node Fd ℕ) TimerHeap.later]
variable {reply : Bytes → Answer} {idle : ℕ}

/-- What a thread does to the open descriptors at `pc`. -/
theorem perform_owner_apply {s s' : HttpServer Q} {fd : Fd} {pc : Pc ConnId} {r : Sys}
    {pc' : Option (Pc ConnId)} (h : s.perform idle fd (pc.code reply) r = some (s', pc'))
    (fd' : Fd) : s'.owner fd' = if pc = .close ∧ fd' = fd then none else s.owner fd' := by
  rw [(perform_effect h).owner]
  by_cases hpc : pc = .close
  · by_cases hfd : fd' = fd
    · simp [hpc, hfd]
    · simp [hpc, hfd]
  · simp [hpc]

theorem perform_balance {s s' : HttpServer Q} {fd : Fd} {pc : Pc ConnId} {r : Sys}
    {pc' : Option (Pc ConnId)} (h : s.perform idle fd (pc.code reply) r = some (s', pc'))
    (hopen : pc = .close → (s.owner fd).isSome = true) (fd' : Fd) :
    (s'.connections.lookup fd').isSome.toNat + (fd = fd' && pc'.any Pc.pastErase).toNat +
        (s.owner fd').isSome.toNat =
      (s.connections.lookup fd').isSome.toNat + (fd = fd' && pc.pastErase).toNat +
        (s'.owner fd').isSome.toNat := by
  by_cases hfd : fd' = fd
  · subst hfd
    rw [perform_owner_apply h]
    cases handler_cases h with
    | closeErase hc =>
      rw [Finmap.lookup_erase, hc]
      simp [Pc.pastErase]
    | close =>
      rw [show (s.closeFile fd').connections = s.connections from rfl, hopen rfl]
      simp [Pc.pastErase]
    | _ => simp [Pc.pastErase] <;> rfl
  · rw [perform_owner_apply h, perform_lookup_ne h hfd]
    simp [Ne.symm hfd, hfd]

/-- A step of a thread that works on `fd`, given its other holders. -/
theorem Closable.perform {s s₁ s' : HttpServer Q} (hs : Closable s) {fd : Fd} {pc : Pc ConnId}
    {r : Sys} {pc' : Option (Pc ConnId)} (h : s.perform idle fd (pc.code reply) r = some (s₁, pc'))
    (hopen : pc = .close → (s.owner fd).isSome = true)
    (howner : s'.owner = s₁.owner) (hconn : s'.connections = s₁.connections)
    (hholders : ∀ fd', ∃ others,
      s.holders fd' = (s.connections.lookup fd').isSome.toNat +
        (fd = fd' && pc.pastErase).toNat + others ∧
      s'.holders fd' = (s'.connections.lookup fd').isSome.toNat +
        (fd = fd' && pc'.any Pc.pastErase).toNat + others)
    (haccepted : ∀ c, s.Accepted c → s'.Accepted c)
    (hjoined : s'.main = .shutdown ∨ s'.main = .stopped → s'.queue = [] ∧ s'.tasks = [])
    (hemptied : s'.main ≠ .stopped) : Closable s' := by
  have hsub : ∀ fd' c, s'.owner fd' = some c → s.owner fd' = some c := by
    intro fd' c hc
    rw [howner, perform_owner_apply h] at hc
    split_ifs at hc
    exact hc
  refine ⟨fun fd' => ?_, fun fd' fd'' c hc hc' => ?_, fun fd' c hc => ?_, hjoined,
    fun hm => absurd hm hemptied⟩
  · obtain ⟨others, hbefore, hafter⟩ := hholders fd'
    have hbalance := perform_balance h hopen fd'
    rw [hs.balance fd'] at hbefore
    rw [hafter, howner, hconn]
    omega
  · exact hs.inj fd' fd'' c (hsub fd' c hc) (hsub fd'' c hc')
  · exact haccepted c (hs.accepted fd' c (hsub fd' c hc))

theorem Closable.task_step {s s' : HttpServer Q} (hs : Closable s) {i : ℕ} {r : Sys}
    (h : s.step reply idle (.task i r) = some s') : Closable s' := by
  obtain ⟨l₁, t, l₂, s₁, pc, htasks, -, hperform, rfl⟩ := taskStep_cases h
  have heq := perform_eq hperform
  have hmain : s₁.main = s.main := by rw [heq]
  have hnext : s₁.next = s.next := by rw [heq]
  have hqueue : s₁.queue = s.queue := by rw [heq]
  have hperm := perm_thread_cons s.queue htasks
  have hperm' := perm_thread s₁.queue l₁ l₂ (pc.map fun pc => { t with pc })
  rw [show s₁.queue ++ (l₁ ++ l₂) = s.queue ++ (l₁ ++ l₂) by rw [hqueue]] at hperm'
  have hrunning : s.tasks ≠ [] := by simp [htasks]
  have hnot : s₁.main ≠ .shutdown ∧ s₁.main ≠ .stopped := by
    rw [hmain]
    exact ⟨fun hm => hrunning (hs.joined (.inl hm)).2, fun hm => hrunning (hs.joined (.inr hm)).2⟩
  -- a task closes its descriptor once its entry is erased
  have hone : ∀ (fd' : Fd) (t : Task), (if Task.closes fd' t = true then 1 else 0) =
      (t.fd = fd' && t.pc.pastErase).toNat := by
    intro fd' t
    unfold Task.closes
    cases (decide (t.fd = fd') && t.pc.pastErase) <;> rfl
  refine hs.perform hperform (fun hpc => ?_) rfl rfl (fun fd' => ?_) (fun c hc => ?_)
    (fun hm => (hm.elim hnot.1 hnot.2).elim) hnot.2
  · have hcount : 0 < (s.queue ++ s.tasks).countP (Task.closes t.fd) :=
      List.countP_pos_iff.2 ⟨t, hperm.mem_iff.2 List.mem_cons_self,
        by simp [Task.closes, hpc, Pc.pastErase]⟩
    exact hs.open_of_holds (by unfold holders; omega)
  · refine ⟨(s.main.holds fd').toNat + (s.queue ++ (l₁ ++ l₂)).countP (Task.closes fd'), ?_, ?_⟩
    · rw [holders, hperm.countP_eq, List.countP_cons, hone]
      omega
    · rw [holders, hperm'.countP_eq, List.countP_append]
      change _ + (s₁.main.holds fd').toNat + _ = _
      rw [hmain]
      cases pc with
      | none =>
        simp only [Option.map_none, Option.toList_none, List.countP_nil, Option.any_none,
          Bool.and_false, Bool.toNat_false]
        omega
      | some q =>
        rw [Option.map_some, Option.toList_some, List.countP_singleton, hone]
        simp only [Option.any_some]
        omega
  · unfold Accepted
    rw [hmain, hnext]
    exact hc

theorem Closable.register {s : HttpServer Q} (hs : Closable s) {fd : Fd} {peerIp : Bytes}
    {rest : List Event} (hm : s.main = .register fd peerIp rest) :
    Closable { s.register idle fd peerIp with main := .add fd rest } := by
  -- the entry takes over from the main thread
  have hgone : s.connections.lookup fd = none := hs.lookup_of_register hm
  constructor
  case balance =>
    intro fd'
    have hold := hs.balance fd'
    unfold holders at hold ⊢
    change ((s.connections.insert fd s.next).lookup fd').isSome.toNat + 0 + _ =
      (s.owner fd').isSome.toNat
    rw [← hold, hm]
    by_cases hfd : fd' = fd
    · subst hfd
      rw [Finmap.lookup_insert, hgone]
      simp [Main.holds]
      rfl
    · rw [Finmap.lookup_insert_of_ne _ hfd]
      simp [Main.holds, Ne.symm hfd]
      rfl
  case inj => exact hs.inj
  case accepted =>
    intro fd' c hc
    rcases hs.accepted fd' c hc with hlt | ⟨rfl, -⟩
    · exact .inl (Nat.lt_succ_of_lt hlt)
    · exact .inl (Nat.lt_succ_self _)
  case joined => rintro (hm' | hm') <;> cases hm'
  case emptied => rintro ⟨⟩

theorem Closable.close {s s₁ : HttpServer Q} (hs : Closable s) {fd : Fd} {pc : Pc ConnId}
    {caller : Caller} {pc' : Option (Pc ConnId)} (hm : s.main = .closing fd pc caller)
    (h : s.perform idle fd (pc.code reply) .done = some (s₁, pc')) :
    Closable { s₁ with main := pc'.elim caller.main fun pc' => .closing fd pc' caller } := by
  have heq := perform_eq h
  have hnext : s₁.next = s.next := by rw [heq]
  have htasks : s₁.queue ++ s₁.tasks = s.queue ++ s.tasks := by rw [heq]
  have hmain : ∀ fd', Main.holds fd' (pc'.elim caller.main fun pc' => .closing fd pc' caller) =
      (fd = fd' && pc'.any Pc.pastErase) := by
    intro fd'
    cases pc' with
    | none => cases caller <;> simp [Caller.main, Main.holds]
    | some q => rfl
  refine hs.perform h (fun hpc => ?_) rfl rfl (fun fd' => ?_) (fun c hc => ?_) ?_ ?_
  · subst hpc
    exact hs.open_of_holds (by simp [holders, hm, Main.holds, Pc.pastErase]; omega)
  · refine ⟨(s.queue ++ s.tasks).countP (Task.closes fd'), ?_, ?_⟩
    · rw [holders, hm]
      rfl
    · rw [holders, hmain]
      change _ + (s₁.queue ++ s₁.tasks).countP _ = _
      rw [htasks]
  · rcases hc with hlt | ⟨-, _, _, _, hm'⟩
    · exact .inl (hnext ▸ hlt)
    · rw [hm] at hm'
      cases hm'
  · cases pc' <;> cases caller <;> simp [Caller.main]
  · cases pc' <;> cases caller <;> simp [Caller.main]

theorem Closable.main_step {s s' : HttpServer Q} {r : MainSys} (hs : Closable s)
    (h : MainCase reply idle s r s') : Closable s' := by
  -- most steps neither open nor close a descriptor
  have hgoto : ∀ {m : Main} {now : ℕ} {running : Bool} {timers : TimerHeap Q Fd ℕ},
      (∀ fd, m.holds fd = s.main.holds fd) → (∀ fd ip rest, s.main ≠ .register fd ip rest) →
      m ≠ .shutdown ∧ m ≠ .stopped → Closable { s with now, running, timers, main := m } := by
    intro m now running timers hholds hmain hm
    refine hs.move rfl rfl (fun _ => rfl) hholds (fun c hc => .inl ?_)
      (fun h => (h.elim hm.1 hm.2).elim) (fun h => absurd h hm.2)
    refine hc.resolve_right ?_
    rintro ⟨-, fd, ip, rest, hm'⟩
    exact hmain fd ip rest hm'
  cases h with
  | loop hm =>
    exact hgoto (by rw [hm]; split_ifs <;> simp [Main.holds]) (by simp [hm])
      (by split_ifs <;> simp)
  | @wait evs s₁ hm hev _ =>
    have howner := deliverAll_owner hev
    obtain ⟨files, rfl⟩ := deliverAll_eq hev
    refine hs.move howner rfl (fun _ => rfl) (by simp [hm, Main.holds]) (fun c hc => .inl ?_)
      (by simp) (by simp)
    exact hc.resolve_right (by simp [hm])
  | interrupted hm => exact hgoto (by simp [hm, Main.holds]) (by simp [hm]) (by simp)
  | failed hm => exact hgoto (by simp [hm, Main.holds]) (by simp [hm]) (by simp)
  | batchEnd hm => exact hgoto (by simp [hm, Main.holds]) (by simp [hm]) (by simp)
  | listen hm => exact hgoto (by simp [hm, Main.holds]) (by simp [hm]) (by simp)
  | hangup hm => exact hgoto (by simp [hm, Main.holds, Pc.pastErase]) (by simp [hm]) (by simp)
  | ready hm => exact hgoto (by simp [hm, Main.holds]) (by simp [hm]) (by simp)
  | accepted hm _ hfree => exact hs.accept hm hfree
  | refused hm => exact hgoto (by simp [hm, Main.holds]) (by simp [hm]) (by simp)
  | register hm => exact hs.register hm
  | add hm =>
    refine hs.move (owner_updateFile s _ fun _ => rfl) rfl (fun _ => rfl)
      (by simp [hm, Main.holds]) (fun c hc => .inl ?_) (by simp) (by simp)
    exact hc.resolve_right (by simp [hm])
  | gone hm _ => exact hgoto (by simp [hm, Main.holds]) (by simp [hm]) (by simp)
  | dispatch hm _ => exact hgoto (by simp [hm, Main.holds]) (by simp [hm]) (by simp)
  | begin hm _ _ =>
    refine hs.move rfl rfl (fun _ => rfl) (by simp [hm, Main.holds]) (fun c hc => .inl ?_)
      (by simp) (by simp)
    exact hc.resolve_right (by simp [hm])
  | discard hm _ => exact hgoto (by simp [hm, Main.holds]) (by simp [hm]) (by simp)
  | @enqueue fd c i rest hm =>
    refine hs.move rfl rfl (fun fd' => ?_) (by simp [hm, Main.holds]) (fun c hc => .inl ?_)
      (by simp) (by simp)
    · have hnot : Task.closes fd' ⟨fd, c, beginPc i⟩ = false := by
        cases i <;> simp [Task.closes, beginPc, Pc.pastErase]
      simp [hnot]
    · exact hc.resolve_right (by simp [hm])
  | close hm hperform => exact hs.close hm hperform
  | idle hm => exact hgoto (by simp [hm, Main.holds]) (by simp [hm]) (by simp)
  | idleEnd hm => exact hgoto (by simp [hm, Main.holds]) (by simp [hm]) (by simp)
  | idleNext hm _ => exact hgoto (by simp [hm, Main.holds, Pc.pastErase]) (by simp [hm]) (by simp)
  | stop hm => exact hgoto (by simp [hm, Main.holds]) (by simp [hm]) (by simp)
  | join hm hqueue htasks =>
    refine hs.move rfl rfl (fun _ => rfl) (by simp [hm, Main.holds]) (fun c hc => .inl ?_)
      (fun _ => ⟨hqueue, htasks⟩) (by simp)
    exact hc.resolve_right (by simp [hm])
  | shutdown hm _ => exact hs.shutdown hm

theorem Closable.init : Closable (lts (Q := Q) reply idle).init := by
  constructor
  case balance => exact fun fd => rfl
  case inj => rintro fd fd' c ⟨⟩
  case accepted => rintro fd c ⟨⟩
  case joined => rintro (hm | hm) <;> cases hm
  case emptied => rintro ⟨⟩

theorem Closable.step {s s' : HttpServer Q} {l : Label} (hs : Closable s)
    (h : s.step reply idle l = some s') : Closable s' := by
  cases l with
  | tick d =>
    cases h
    exact hs.move rfl rfl (fun _ => rfl) (fun _ => rfl) (fun _ => id) hs.joined hs.emptied
  | requestStop =>
    cases h
    exact hs.move rfl rfl (fun _ => rfl) (fun _ => rfl) (fun _ => id) hs.joined hs.emptied
  | main r => exact hs.main_step (mainStep_cases h)
  | start =>
    obtain ⟨t, queue, hqueue, rfl⟩ := start_cases h
    have hperm := perm_start hqueue s.tasks
    refine hs.move rfl rfl (fun fd => hperm.countP_eq _) (fun _ => rfl) (fun _ => id)
      (fun hm => ?_) hs.emptied
    have hempty := (hs.joined hm).1
    rw [hqueue] at hempty
    cases hempty
  | task i r => exact hs.task_step h

/-! ### The ledger -/

theorem main_owner_cases {s s' : HttpServer Q} {r : MainSys} (h : MainCase reply idle s r s') :
    OwnerCase s s' (.main r) := by
  -- most steps leave the descriptor table alone
  have hgoto : ∀ {m : Main} {now : ℕ} {running : Bool} {timers : TimerHeap Q Fd ℕ}
      {conns : ConnId → Connection} {queue : List Task},
      s.closeCalls (.main r) = 0 → (∀ fd ip rest, s.main ≠ .register fd ip rest) →
      (∀ fd ip rest, m ≠ .register fd ip rest) →
      OwnerCase s { s with now, running, timers, conns, queue, main := m } (.main r) := by
    intro m now running timers conns queue hcalls hmain hm
    exact .same hcalls rfl rfl (by simp [hmain, hm])
  cases h with
  | loop hm => exact hgoto (by simp [closeCalls, hm]) (by simp [hm]) (by split_ifs <;> simp)
  | @wait evs s₁ hm hev _ =>
    have howner := deliverAll_owner hev
    obtain ⟨files, rfl⟩ := deliverAll_eq hev
    exact .same (by simp [closeCalls, hm]) howner rfl (by simp [hm])
  | interrupted hm => exact hgoto (by simp [closeCalls, hm]) (by simp [hm]) (by simp)
  | failed hm => exact hgoto (by simp [closeCalls, hm]) (by simp [hm]) (by simp)
  | batchEnd hm => exact hgoto (by simp [closeCalls, hm]) (by simp [hm]) (by simp)
  | listen hm => exact hgoto (by simp [closeCalls, hm]) (by simp [hm]) (by simp)
  | hangup hm => exact hgoto (by simp [closeCalls, hm]) (by simp [hm]) (by simp)
  | ready hm => exact hgoto (by simp [closeCalls, hm]) (by simp [hm]) (by simp)
  | @accepted fd ip rest hm _ hfree =>
    refine .opened fd (by simp [closeCalls, hm]) (by rw [owner, hfree]; rfl)
      (owner_update s fd _) (by simp [Accepted, hm]) fun c => ?_
    simp [Accepted, hm]
  | refused hm => exact hgoto (by simp [closeCalls, hm]) (by simp [hm]) (by simp)
  | @register fd ip rest hm =>
    refine .closed (fun fd' => ?_) fun c => ?_
    · rw [show s.closeCalls (.main r) = 0 by simp [closeCalls, hm],
        if_neg (Multiset.notMem_zero fd')]
      rfl
    · -- the new connection is counted now
      have hnext : (s.register idle fd ip).next = s.next + 1 := rfl
      simp only [Accepted, hm, hnext]
      simpa using Nat.lt_succ_iff_lt_or_eq
  | add hm =>
    exact .same (by simp [closeCalls, hm]) (owner_updateFile s _ fun _ => rfl) rfl (by simp [hm])
  | gone hm _ => exact hgoto (by simp [closeCalls, hm]) (by simp [hm]) (by simp)
  | dispatch hm _ => exact hgoto (by simp [closeCalls, hm]) (by simp [hm]) (by simp)
  | begin hm _ _ => exact hgoto (by simp [closeCalls, hm]) (by simp [hm]) (by simp)
  | discard hm _ => exact hgoto (by simp [closeCalls, hm]) (by simp [hm]) (by simp)
  | enqueue hm => exact hgoto (by simp [closeCalls, hm]) (by simp [hm]) (by simp)
  | @close fd pc caller s₁ pc' hm hperform =>
    have heq := perform_eq hperform
    have hnext : s₁.next = s.next := by rw [heq]
    refine .closed (fun fd' => ?_) fun c => ?_
    · refine (perform_owner_apply hperform fd').trans ?_
      cases pc <;> simp [closeCalls, hm]
    · simp only [Accepted, hm]
      cases pc' <;> cases caller <;> simp [Caller.main, hnext]
  | idle hm => exact hgoto (by simp [closeCalls, hm]) (by simp [hm]) (by simp)
  | idleEnd hm => exact hgoto (by simp [closeCalls, hm]) (by simp [hm]) (by simp)
  | idleNext hm _ => exact hgoto (by simp [closeCalls, hm]) (by simp [hm]) (by simp)
  | stop hm => exact hgoto (by simp [closeCalls, hm]) (by simp [hm]) (by simp)
  | join hm _ _ => exact hgoto (by simp [closeCalls, hm]) (by simp [hm]) (by simp)
  | shutdown hm _ =>
    refine .closed (fun fd => ?_) fun c => by simp [Accepted, hm, closeAll]
    simp only [closeCalls, hm, Finset.mem_val, Finmap.mem_keys]
    exact owner_closeAll s fd

theorem step_owner_cases {s s' : HttpServer Q} {l : Label} (h : s.step reply idle l = some s') :
    OwnerCase s s' l := by
  cases l with
  | tick d => cases h; exact .same rfl rfl rfl .rfl
  | requestStop => cases h; exact .same rfl rfl rfl .rfl
  | main r => exact main_owner_cases (mainStep_cases h)
  | start =>
    obtain ⟨t, queue, hqueue, rfl⟩ := start_cases h
    exact .same rfl rfl rfl .rfl
  | task i r =>
    obtain ⟨l₁, t, l₂, s₁, pc, htasks, hi, hperform, rfl⟩ := taskStep_cases h
    have heq := perform_eq hperform
    have hmain : s₁.main = s.main := by rw [heq]
    have hnext : s₁.next = s.next := by rw [heq]
    refine .closed (fun fd => (perform_owner_apply hperform fd).trans ?_) fun c => ?_
    · simp only [closeCalls, hi]
      by_cases hpc : t.pc = .close <;> simp [hpc]
    · simp only [Accepted, hmain, hnext]

theorem Ledger.step {s s' : HttpServer Q} {m : Multiset (Option ConnId)} {l : Label}
    (hm : Ledger s m) (hs : Closable s) (h : s.step reply idle l = some s') :
    Ledger s' (closeLedger m s l) := by
  cases step_owner_cases h with
  | opened fd hcalls hnone howner hnew haccepted =>
    rw [closeLedger, hcalls, Multiset.map_zero, Multiset.add_zero]
    exact hm.opened hs hnone howner hnew haccepted
  | closed howner haccepted => exact hm.closed hs howner haccepted

theorem ledger_of_reachable {s : HttpServer Q} {m : Multiset (Option ConnId)}
    (h : ((lts reply idle).record 0 closeLedger).Reachable (s, m)) : Closable s ∧ Ledger s m := by
  refine LTS.record_invariant (I := fun s m => Closable s ∧ Ledger s m) h ⟨.init, ?_⟩ ?_
  · refine ⟨Multiset.notMem_zero _, fun c => ?_⟩
    rw [if_neg (by rintro ⟨fd, ⟨⟩⟩), if_neg (by rintro (hc | ⟨-, _, _, _, ⟨⟩⟩); cases hc)]
    rfl
  · rintro s m l s' - ⟨hs, hm⟩ hstep
    exact ⟨hs.step hstep, hm.step hs hstep⟩

/-- **Every accepted socket is closed exactly once.**  In every run, `close` is called on open
descriptors only, at most once for each accepted connection, and once `stop` has returned exactly
once for each; `handleAccept` overwrites no entry. -/
theorem closed_exactly_once {s : HttpServer Q} {m : Multiset (Option ConnId)}
    (h : ((lts reply idle).record 0 closeLedger).Reachable (s, m)) :
    (∀ l, ∀ fd ∈ s.closeCalls l, (s.owner fd).isSome = true) ∧ none ∉ m ∧
      (∀ c, m.count (some c) ≤ 1) ∧
      (∀ fd ip rest, s.main = .register fd ip rest → s.connections.lookup fd = none) ∧
      (s.main = .stopped → ∀ c, s.Accepted c → m.count (some c) = 1) := by
  obtain ⟨hs, hm⟩ := ledger_of_reachable h
  refine ⟨fun l fd => hs.open_of_mem_closeCalls, hm.open_, fun c => ?_,
    fun fd ip rest => hs.lookup_of_register, fun hstopped c hc => ?_⟩
  · have hbalance := hm.balance c
    split_ifs at hbalance <;> omega
  · -- no descriptor is open: the table is empty and no thread is left
    have hnone : ¬ ∃ fd, s.owner fd = some c := by
      rintro ⟨fd, howner⟩
      have hbalance := hs.balance fd
      obtain ⟨hqueue, htasks⟩ := hs.joined (.inr hstopped)
      rw [holders, hs.emptied hstopped, hstopped, hqueue, htasks, howner] at hbalance
      cases hbalance
    have hbalance := hm.balance c
    rw [if_neg hnone, if_pos hc] at hbalance
    omega

end Step

/-- One client sends nothing, then the server stops. -/
def stopRun : List Label :=
  dispatchRun ++ [.start, .task 0 .done, .task 0 (.read .again), .task 0 .done, .task 0 .done,
    .task 0 .done, .requestStop, .main .done, .main .done, .main .done, .main .done, .main .done,
    .main .done, .main .done]

theorem closed_exactly_once_stop :
    ∃ s m, (sample.record 0 closeLedger).Reachable (s, m) ∧ s.main = .stopped ∧ s.next = 1 ∧
      m.count (some 0) = 1 := by
  obtain ⟨⟨s, m⟩, hrun, hstopped, hnext⟩ :
      ∃ p ∈ (sample.record 0 closeLedger).run (sample.record 0 closeLedger).init stopRun,
        p.1.main = .stopped ∧ p.1.next = 1 := by decide +kernel
  have h := LTS.reachable_of_run hrun
  have haccepted : s.Accepted 0 := .inl (by rw [hnext]; exact Nat.one_pos)
  obtain ⟨-, -, -, -, hclosed⟩ := closed_exactly_once h
  exact ⟨s, m, h, hstopped, hnext, hclosed hstopped 0 haccepted⟩

end HttpServer

end MiniServer
