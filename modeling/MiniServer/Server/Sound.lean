import MiniServer.Server.Effort

/-!
# What every thread can rely on

`Network.Sound` holds in every reachable state: the connection in the hands of a thread has been
made, a handler that is about to call `writev` has something to write, the main thread is inside
`closeConnection` where it says it is, only armed descriptors are on the ready list, and finitely
many descriptors are open.  With it every thread has a step, and the sums over the open descriptors
are finite.
-/

namespace MiniServer

/-- What is not written yet goes into the array. -/
theorem Connection.unsent_ne_nil {c : Connection} (h : c.hasWriteData = true) : c.unsent ≠ [] := by
  rw [unsent, iovecs, List.flatten_append]
  rcases Bool.or_eq_true_iff.1 h with hheader | hfile
  · have hlt := of_decide_eq_true hheader
    rw [if_pos hlt, subSize_of_le hlt.le]
    refine List.append_ne_nil_of_left_ne_nil (List.length_pos_iff.1 ?_) _
    simp only [List.flatten_singleton, List.length_take, List.length_drop]
    omega
  · obtain ⟨hsome, hlt⟩ := Bool.and_eq_true_iff.1 hfile
    have hlt := of_decide_eq_true hlt
    rw [if_pos (show c.mappedFile.isSome ∧ c.fileOffset < c.fileSize from ⟨hsome, hlt⟩),
      subSize_of_le hlt.le]
    refine List.append_ne_nil_of_right_ne_nil _ (List.length_pos_iff.1 ?_)
    simp only [fileSize] at hlt
    simp only [List.flatten_singleton, List.length_take, List.length_drop, fileSize]
    omega

/-- The connection that a handler holds is made, and the array for `writev` is not empty. -/
structure Pc.Sound (pc : Pc ConnId) (next : ConnId) : Prop where
  made : ∀ c ∈ pc.conn?, c < next
  iov : ∀ c iov, pc = .writev c iov → iov.flatten ≠ []

theorem Pc.Sound.mono {pc : Pc ConnId} {next next' : ConnId} (h : pc.Sound next)
    (hle : next ≤ next') : pc.Sound next' :=
  ⟨fun c hc => Nat.lt_of_lt_of_le (h.made c hc) hle, h.iov⟩

namespace HttpServer

variable {Q : Type}

/-- What a thread relies on to go on. -/
structure Sound (s : HttpServer Q) : Prop where
  table : ∀ fd c, s.connections.lookup fd = some c → c < s.next
  task : ∀ t ∈ s.queue ++ s.tasks, t.pc.Sound s.next
  closing : ∀ fd pc caller, s.main = .closing fd pc caller →
    (pc = .closeBegin ∨ pc.pastErase = true) ∧ pc.Sound s.next

variable [PriorityQueue Q (TimerHeap.Node Fd ℕ) TimerHeap.later]
variable {reply : Bytes → Answer} {idle : ℕ} {s s' : HttpServer Q}

theorem perform_sound {fd : Fd} {pc : Pc ConnId} {r : Sys} {pc' : Option (Pc ConnId)}
    (htable : ∀ fd c, s.connections.lookup fd = some c → c < s.next) (hpc : pc.Sound s.next)
    (h : s.perform idle fd (pc.code reply) r = some (s', pc')) :
    ∀ q ∈ pc', q.Sound s.next := by
  have hmade := hpc.made
  intro q hq
  constructor
  · intro c hc
    cases handler_cases h with
    | readFound hlookup => cases hq; cases hc; exact htable fd c hlookup
    | writeFound hlookup => cases hq; cases hc; exact htable fd c hlookup
    | processFound hlookup => cases hq; cases hc; exact htable fd c hlookup
    | closeErase hlookup => cases hq; cases hc; exact htable fd c hlookup
    | _ => cases hq <;> first | exact hmade c hc | cases hc
  · rintro c iov rfl
    cases handler_cases h with
    | gather _ hdata => cases hq; exact Connection.unsent_ne_nil hdata
    | _ => cases hq

omit [PriorityQueue Q (TimerHeap.Node Fd ℕ) TimerHeap.later] in
/-- A step to a place where the main thread is not inside `closeConnection`, or at its start. -/
theorem Sound.goto (hs : Sound s)
    (htable : ∀ fd c, s'.connections.lookup fd = some c → s.connections.lookup fd = some c)
    (hnext : s'.next = s.next) (htasks : ∀ t ∈ s'.queue ++ s'.tasks, t ∈ s.queue ++ s.tasks)
    (hmain : ∀ fd pc caller, s'.main = .closing fd pc caller → pc = .closeBegin) : Sound s' where
  table fd c hc := hnext ▸ hs.table fd c (htable fd c hc)
  task t ht := hnext ▸ hs.task t (htasks t ht)
  closing fd pc caller hm := by
    obtain rfl := hmain fd pc caller hm
    exact ⟨.inl rfl, nofun, nofun⟩

theorem Sound.main (hs : Sound s) {r : MainSys} (h : s.mainStep reply idle r = some s') :
    Sound s' := by
  cases mainStep_cases h with
  | loop hm => exact hs.goto (fun _ _ => id) rfl (fun _ => id) (by split_ifs <;> simp)
  | wait hm hev _ =>
    obtain ⟨files, rfl⟩ := deliverAll_eq hev
    exact hs.goto (fun _ _ => id) rfl (fun _ => id) (by simp)
  | @register fd ip rest hm =>
    refine ⟨fun fd' c hc => ?_, fun t ht => (hs.task t ht).mono (Nat.le_succ _), nofun⟩
    change (s.connections.insert fd s.next).lookup fd' = some c at hc
    show c < s.next + 1
    by_cases hfd : fd' = fd
    · rw [hfd, Finmap.lookup_insert, Option.some.injEq] at hc
      exact hc ▸ Nat.lt_succ_self _
    · rw [Finmap.lookup_insert_of_ne _ hfd] at hc
      exact Nat.lt_succ_of_lt (hs.table fd' c hc)
  | @enqueue fd c interest rest hm =>
    refine ⟨hs.table, fun t ht => ?_, nofun⟩
    rw [List.append_assoc, List.mem_append, List.mem_append, List.mem_singleton] at ht
    rcases ht with ht | rfl | ht
    · exact hs.task t (List.mem_append_left _ ht)
    · cases interest <;> exact ⟨nofun, nofun⟩
    · exact hs.task t (List.mem_append_right _ ht)
  | @close fd pc caller s₁ pc' hm hperform =>
    obtain ⟨hpc, hsound⟩ := hs.closing fd pc caller hm
    have hnext : s₁.next = s.next := by rw [perform_eq hperform]
    have hqueue : s₁.queue = s.queue := by rw [perform_eq hperform]
    have htasks : s₁.tasks = s.tasks := by rw [perform_eq hperform]
    refine ⟨fun fd' c hc => ?_, fun t ht => ?_, fun fd' q caller' hm' => ?_⟩
    · rw [hnext]
      exact hs.table fd' c ((perform_effect hperform).table fd' c hc)
    · rw [hqueue, htasks] at ht
      rw [hnext]
      exact hs.task t ht
    · rw [hnext]
      cases pc' with
      | none => cases caller <;> cases hm'
      | some q' =>
        cases hm'
        exact ⟨.inr ((perform_close hpc hperform).1 _ rfl),
          perform_sound hs.table hsound hperform _ rfl⟩
  | shutdown hm _ => exact hs.goto (fun fd c hc => by cases hc) rfl (fun _ => id) (by simp)
  | _ => exact hs.goto (fun _ _ => id) rfl (fun _ => id) (by simp)

theorem Sound.step (hs : Sound s) {l : Label} (h : s.step reply idle l = some s') : Sound s' := by
  cases l with
  | tick d => cases h; exact ⟨hs.table, hs.task, hs.closing⟩
  | requestStop => cases h; exact ⟨hs.table, hs.task, hs.closing⟩
  | main r => exact hs.main h
  | start =>
    obtain ⟨t, queue, hqueue, rfl⟩ := start_cases h
    refine ⟨hs.table, fun t' ht' => hs.task t' ?_, hs.closing⟩
    simp only [hqueue, List.mem_append, List.mem_cons, List.not_mem_nil, or_false] at ht' ⊢
    tauto
  | task i r =>
    obtain ⟨l₁, t, l₂, s₁, pc, htasks, hi, hperform, rfl⟩ := taskStep_cases h
    have hnext : s₁.next = s.next := by rw [perform_eq hperform]
    have hqueue : s₁.queue = s.queue := by rw [perform_eq hperform]
    have hmain : s₁.main = s.main := by rw [perform_eq hperform]
    have ht := hs.task t (List.mem_append_right _ (List.mem_of_getElem? hi))
    refine ⟨fun fd c hc => ?_, fun t' ht' => ?_, fun fd pc caller hm => ?_⟩
    · rw [hnext]
      exact hs.table fd c ((perform_effect hperform).table fd c hc)
    · rw [hnext]
      rcases mem_taskStep ht' with ⟨q, hq, rfl⟩ | ht'
      · exact perform_sound hs.table ht hperform q hq
      · refine hs.task t' ?_
        rw [hqueue] at ht'
        rw [htasks]
        simp only [List.mem_append, List.mem_cons] at ht' ⊢
        tauto
    · rw [hnext]
      exact hs.closing fd pc caller (hmain.symm.trans hm)

end HttpServer

namespace Network

variable {Q : Type}

section Step

variable [PriorityQueue Q (TimerHeap.Node Fd ℕ) TimerHeap.later]
variable {reply : Bytes → Answer} {idle : ℕ} {n n' : Network Q} {fds : Finset Fd} {wake : ℕ}

/-! ### What holds in every state -/

/-- What is needed of the server, its ready list and its open descriptors. -/
structure Sound (fds : Finset Fd) (n : Network Q) : Prop where
  server : n.server.Sound
  ready : ReadyArmed n
  opened : ∀ fd, (n.server.owner fd).isSome = true → fd ∈ fds

omit [PriorityQueue Q (TimerHeap.Node Fd ℕ) TimerHeap.later] in
theorem ReadyArmed.after {server : HttpServer Q} : ReadyArmed (n.after server) := by
  intro fd hready
  simp only [Network.after, listed] at hready
  split at hready
  · rename_i interest hreg
    simp [HttpServer.armed, Network.after, hreg]
  · cases hready

omit [PriorityQueue Q (TimerHeap.Node Fd ℕ) TimerHeap.later] in
theorem ReadyArmed.notify (h : ReadyArmed n) {c : ConnId} {peer : Peer}
    {raises : Interest → Bool} : ReadyArmed (n.notify c peer raises) := by
  intro fd hready
  simp only [Network.notify, Bool.or_eq_true, Bool.and_eq_true] at hready
  rcases hready with hready | ⟨-, hready⟩
  · exact h fd hready
  · obtain ⟨armed, hreg, hraises⟩ := (Option.any_eq_true _ _).1 hready
    obtain ⟨interest, rfl, -⟩ := (Option.any_eq_true _ _).1 hraises
    show n.server.armed fd = true
    rw [HttpServer.armed, hreg]
    rfl

theorem exists_after {l : Label} (h : n.step reply idle (.server l) = some n') :
    ∃ server, n.allows l = true ∧ n.server.step reply idle l = some server ∧
      n' = n.after server := by
  obtain ⟨hallows, hserver, heq⟩ := server_cases h
  exact ⟨n'.server, hallows, hserver, heq⟩

/-- Only `accept` opens a descriptor. -/
theorem owner_step {s s' : HttpServer Q} {l : Label} (h : s.step reply idle l = some s')
    (hl : ∀ fd ip, l ≠ .main (.accepted fd ip)) {fd : Fd} {c : ConnId}
    (hc : s'.owner fd = some c) : s.owner fd = some c := by
  cases l with
  | tick d => cases h; exact hc
  | requestStop => cases h; exact hc
  | start =>
    obtain ⟨t, queue, -, rfl⟩ := HttpServer.start_cases h
    exact hc
  | task i r =>
    obtain ⟨l₁, t, l₂, s₁, pc, -, -, hperform, rfl⟩ := HttpServer.taskStep_cases h
    have howner := HttpServer.perform_owner_apply hperform fd
    rw [show s₁.owner fd = some c from hc] at howner
    split_ifs at howner
    exact howner.symm
  | main r =>
    cases HttpServer.mainStep_cases h with
    | wait hm hev _ => exact (congrFun (HttpServer.deliverAll_owner hev) fd).symm.trans hc
    | accepted hm hr _ =>
      subst hr
      exact absurd rfl (hl _ _)
    | @add fd' rest hm =>
      have howner : (s.epollAdd fd' .input).owner = s.owner :=
        HttpServer.owner_updateFile s fd' fun _ => rfl
      exact (congrFun howner fd).symm.trans hc
    | @close fd' pc caller s₁ pc' hm hperform =>
      have howner := HttpServer.perform_owner_apply hperform fd
      rw [show s₁.owner fd = some c from hc] at howner
      split_ifs at howner
      exact howner.symm
    | shutdown hm _ =>
      have howner := HttpServer.owner_closeAll s fd
      rw [show s.closeAll.owner fd = some c from hc] at howner
      split_ifs at howner
      exact howner.symm
    | _ => exact hc

/-- Unless a client is accepted, the open descriptors are among those of before. -/
theorem Sound.step (hn : Sound fds n) {l : NetLabel} (h : n.step reply idle l = some n')
    (hl : ∀ fd ip, l ≠ .server (.main (.accepted fd ip))) : Sound fds n' := by
  cases l with
  | server l =>
    obtain ⟨s', -, hserver, rfl⟩ := exists_after h
    refine ⟨hn.server.step hserver, .after, fun fd hopen => hn.opened fd ?_⟩
    obtain ⟨c, hc⟩ := Option.isSome_iff_exists.1 hopen
    rw [owner_step hserver (fun fd ip heq => hl fd ip (congrArg _ heq)) hc]
    rfl
  | send c bytes =>
    obtain ⟨-, ⟨⟩⟩ := Option.ite_none_left_eq_some.1 h
    exact ⟨hn.server, hn.ready.notify, hn.opened⟩
  | shut c =>
    obtain ⟨-, ⟨⟩⟩ := Option.ite_none_left_eq_some.1 h
    exact ⟨hn.server, hn.ready.notify, hn.opened⟩
  | reset c =>
    cases h
    exact ⟨hn.server, hn.ready.notify, hn.opened⟩
  | take c count =>
    cases h
    exact ⟨hn.server, hn.ready.notify, hn.opened⟩
  | skip fd =>
    obtain ⟨-, ⟨⟩⟩ := Option.ite_none_left_eq_some.1 h
    refine ⟨hn.server, fun fd' hready => hn.ready fd' ?_, hn.opened⟩
    change Function.update n.ready fd false fd' = true at hready
    by_cases hfd : fd' = fd
    · rw [hfd, Function.update_self] at hready
      cases hready
    · rwa [Function.update_of_ne hfd] at hready

theorem Sound.init : Sound ∅ (lts (Q := Q) reply idle).init where
  server := ⟨nofun, nofun, nofun⟩
  ready := nofun
  opened := nofun

/-- A client that is accepted opens one descriptor more. -/
theorem Sound.exists_step (hn : Sound fds n) {l : NetLabel} (h : n.step reply idle l = some n') :
    ∃ fds', Sound fds' n' := by
  by_cases hl : ∃ fd ip, l = .server (.main (.accepted fd ip))
  · obtain ⟨fd, ip, rfl⟩ := hl
    obtain ⟨s', -, hserver, rfl⟩ := exists_after h
    cases HttpServer.step_owner_cases hserver with
    | opened fd _ _ howner _ _ =>
      refine ⟨insert fd fds, hn.server.step hserver, .after, fun fd' hopen => ?_⟩
      change (s'.owner fd').isSome = true at hopen
      rw [Finset.mem_insert]
      by_cases hfd : fd' = fd
      · exact .inl hfd
      · rw [howner, Function.update_of_ne hfd] at hopen
        exact .inr (hn.opened fd' hopen)
    | closed howner _ =>
      refine ⟨fds, hn.server.step hserver, .after, fun fd' hopen => hn.opened fd' ?_⟩
      change (s'.owner fd').isSome = true at hopen
      rw [howner] at hopen
      split_ifs at hopen
      · cases hopen
      · exact hopen
  · exact ⟨fds, hn.step h fun fd ip heq => hl ⟨fd, ip, heq⟩⟩

end Step

end Network

end MiniServer
