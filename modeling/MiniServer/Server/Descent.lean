import MiniServer.Server.Settling

/-!
# Less is left to do

While the clients are silent, a step of a worker, and one of the main thread while it is busy with
events, leaves less to do than before (`Less`).  The other steps of the main thread leave as much
(`Passes`).  They belong to a pass of `eventLoop` without events or to `stop`, and such a pass has a
number of steps of its own, which comes below the other two numbers (`HttpServer.passing`).
-/

namespace MiniServer

/-- The main thread is busy with events. -/
def Main.busy : Main → Bool
  | .events rest => !rest.isEmpty
  | .accept _ | .register _ _ _ | .add _ _ | .dispatch _ _ _ | .begin _ _ _ _ => true
  | .enqueue _ _ _ _ | .closing _ _ (.events _) => true
  | _ => false

/-- The events that `epoll_wait` returns; there are none when it times out or fails. -/
def MainSys.brings : MainSys → List Event
  | .events evs => evs
  | _ => []

/-- The steps of a pass of `eventLoop` without events, and of `stop`. -/
def HttpServer.passing {Q : Type} [PriorityQueue Q (TimerHeap.Node Fd ℕ) TimerHeap.later]
    (s : HttpServer Q) : ℕ :=
  let nodes := PriorityQueue.size s.timers.heap
  match s.main with
  | .wait => if s.running then 0 else 8 + 6 * nodes
  | .events _ => 7 + 6 * nodes
  | .idle => 6 + 6 * nodes
  | .expired rest => 5 + 6 * rest.length + 6 * nodes
  | .closing _ pc (.idle rest) => 6 + pc.rank + 6 * rest.length + 6 * nodes
  | .loop => 4
  | .stop => 3
  | .join => 2
  | .shutdown => 1
  | _ => 0

namespace Network

/-- Less is left to do than before. -/
def Less {Q : Type} (fds : Finset Fd) (n n' : Network Q) : Prop :=
  n'.supply fds < n.supply fds ∨ n'.supply fds ≤ n.supply fds ∧ n'.work fds < n.work fds

/-- A step that brings nothing new. -/
structure Passes {Q : Type} (fds : Finset Fd) (n n' : Network Q) : Prop where
  supply : n'.supply fds ≤ n.supply fds
  work : n'.work fds ≤ n.work fds
  signals : ∀ fd, n'.signals fd = true → n.signals fd = true

/-- The server settles, and its tasks stay as they are. -/
structure Stays {Q : Type} (n : Network Q) (s' : HttpServer Q) : Prop
    extends Settles n (n.after s') where
  next : s'.next = n.server.next
  buffers : ∀ c, (s'.conns c).readBuf.length ≤ (n.server.conns c).readBuf.length
  queue : s'.queue = n.server.queue
  tasks : s'.tasks = n.server.tasks

section Steps

variable {Q : Type} {n : Network Q} {s₁ s' : HttpServer Q} {fd : Fd} {pc : Pc ConnId}
variable {pc' : Option (Pc ConnId)} {fds : Finset Fd}

/-! ### Steps that leave the tasks alone -/

theorem mainEffort_of_busy {m : Main} (h : m.busy = false) :
    n.mainEffort m = 0 ∧ m.cargo = 0 := by
  cases m with
  | events rest =>
    cases rest with
    | nil => exact ⟨rfl, rfl⟩
    | cons ev rest => cases h
  | closing fd pc caller => cases caller <;> first | exact ⟨rfl, rfl⟩ | cases h
  | _ => first | exact ⟨rfl, rfl⟩ | cases h

theorem Stays.supply_le (h : Stays n s') (hcargo : s'.main.cargo ≤ n.server.main.cargo) :
    (n.after s').supply fds ≤ n.supply fds := by
  have hstock : (n.after s').stock fds ≤ n.stock fds := stock_le h.toTakes h.next h.buffers
  have hsupply : (n.after s').supply fds = (n.after s').stock fds + s'.main.cargo +
      ((s'.queue ++ s'.tasks).map fun t => t.pc.cargo).sum := rfl
  rw [hsupply, h.queue, h.tasks, supply]
  omega

theorem Stays.work_le (h : Stays n s') :
    (n.after s').work fds + (n.mainEffort n.server.main + n.due fds) ≤
      n.work fds + ((n.after s').mainEffort s'.main + (n.after s').due fds) := by
  have htask := h.taskEffort_le n.server.queue n.server.tasks
  have hwork : (n.after s').work fds = (n.after s').mainEffort s'.main +
      (n.after s').taskEffort s'.queue s'.tasks + (n.after s').due fds := rfl
  rw [hwork, h.queue, h.tasks, work]
  omega

theorem Stays.less (h : Stays n s') (hcargo : s'.main.cargo ≤ n.server.main.cargo)
    (heffort : (n.after s').mainEffort s'.main + (n.after s').due fds <
      n.mainEffort n.server.main + n.due fds) : Less fds n (n.after s') := by
  have hwork : _ ≤ n.work fds + _ := h.work_le
  exact .inr ⟨h.supply_le hcargo, by omega⟩

/-- A descriptor that stays registered as it is, or is disarmed, signals nothing new. -/
theorem signals_of_after (h : Takes n (n.after s'))
    (hreg : s'.registration fd = n.server.registration fd ∨ (s'.registration fd).bind id = none)
    (hsignals : (n.after s').signals fd = true) : n.signals fd = true := by
  rw [signals, Bool.and_eq_true] at hsignals ⊢
  obtain ⟨hready, hpolls⟩ := hsignals
  split at hpolls
  · rename_i c interest howner hreg'
    have hold : n.server.registration fd = some (some interest) := by
      rcases hreg with hsame | hnone
      · exact hsame.symm.trans hreg'
      · rw [show s'.registration fd = some (some interest) from hreg'] at hnone
        cases hnone
    constructor
    · have hreg' : s'.registration fd = some (some interest) := hreg'
      simpa [after, listed, hreg', hold] using hready
    · rw [h.owner fd c howner, hold]
      exact polls_mono (congrFun h.peers c) (h.received c) (h.written c) hpolls
  · cases hpolls

theorem Stays.passes (h : Stays n s') (hbusy : s'.main.busy = false)
    (hregs : ∀ fd, s'.registration fd = n.server.registration fd ∨
      (s'.registration fd).bind id = none) : Passes fds n (n.after s') where
  supply := h.supply_le ((mainEffort_of_busy (n := n) hbusy).2.trans_le (Nat.zero_le _))
  work := by
    have hwork : _ ≤ n.work fds + _ := h.work_le
    have hdue : _ ≤ n.due fds := due_le h.toSettles hregs
    have heffort := (mainEffort_of_busy (n := n.after s') hbusy).1
    omega
  signals fd := signals_of_after h.toTakes (hregs fd)

theorem settles_goto {now : ℕ} {running : Bool} {timers : TimerHeap Q Fd ℕ}
    {queue tasks : List Task} {m : Main} :
    Settles n (n.after { n.server with now, running, timers, queue, tasks, main := m }) :=
  ⟨⟨rfl, fun _ _ => id, fun _ => List.prefix_refl _, fun _ => List.prefix_refl _⟩,
    fun _ _ => id, fun _ => id⟩

theorem stays_goto {now : ℕ} {running : Bool} {timers : TimerHeap Q Fd ℕ} {m : Main} :
    Stays n { n.server with now, running, timers, main := m } :=
  ⟨settles_goto, rfl, fun _ => le_rfl, rfl, rfl⟩

/-- The main thread goes on to another place. -/
theorem less_goto {m₀ m : Main} {running : Bool} (hm : n.server.main = m₀)
    (hcargo : m.cargo ≤ m₀.cargo) (heffort : n.mainEffort m < n.mainEffort m₀) :
    Less fds n (n.after { n.server with running, main := m }) := by
  have hstays : Stays n { n.server with running, main := m } := stays_goto
  have hdue : _ ≤ n.due fds := due_le hstays.toSettles fun _ => .inl rfl
  have hmain := hstays.mainEffort_le m
  refine hstays.less (by rw [hm]; exact hcargo) ?_
  rw [hm]
  show (n.after { n.server with running, main := m }).mainEffort m + _ < _
  omega

/-! ### Events -/

/-- Some descriptors are disarmed. -/
theorem due_disarmed (h : Settles n (n.after s'))
    (hregs : ∀ fd, s'.registration fd = n.server.registration fd ∨
      (s'.registration fd).bind id = none) :
    (n.after s').due fds ≤ ∑ fd ∈ fds, n.alarm s' fd := by
  refine Finset.sum_le_sum fun fd _ => ?_
  rcases hregs fd with hsame | hnone
  · refine (alarm_same h hsame).trans_eq ?_
    rw [alarm, alarm, hsame]
  · exact (alarm_off hnone).trans_le (Nat.zero_le _)

/-- `epoll_wait` returns events. -/
theorem less_wait {ev : Event} {evs : List Event}
    (hfds : ∀ fd, (n.server.owner fd).isSome = true → fd ∈ fds)
    (hlisten : Event.listen ∉ ev :: evs) (hdelivers : (ev :: evs).all n.delivers = true)
    (hm : n.server.main = .wait) (h : n.server.deliverAll (ev :: evs) = some s₁)
    (hs' : s' = { s₁ with main := .events (ev :: evs) }) : Less fds n (n.after s') := by
  obtain ⟨halarms, hregs⟩ := deliverAll_alarm hfds hlisten hdelivers h
  have hdelivered := HttpServer.deliverAll_owner h
  have howner : s'.owner = n.server.owner := by rw [hs', ← hdelivered]; rfl
  obtain ⟨files, hsame⟩ := HttpServer.deliverAll_eq h
  have hstays : Stays n s' := by
    refine ⟨⟨⟨rfl, fun fd c hc => (congrFun howner fd).symm.trans hc, fun c => ?_, fun c => ?_⟩,
      fun fd c hc => ?_, fun c hc => ?_⟩, ?_, fun c => ?_, ?_, ?_⟩ <;> subst hs' hsame
    exacts [List.prefix_refl _, List.prefix_refl _, hc, hc, rfl, le_rfl, rfl, rfl]
  have hmain : s'.main = .events (ev :: evs) := by rw [hs']
  have halarm : ∀ fd, n.alarm s' fd = n.alarm s₁ fd := fun fd => by rw [hs']; rfl
  have hdue : (n.after s').due fds ≤ ∑ fd ∈ fds, n.alarm s' fd :=
    due_disarmed hstays.toSettles fun fd => by rw [hs']; exact hregs fd
  have hpending := hstays.pending_le (ev :: evs)
  refine hstays.less (by rw [hmain]; exact Nat.zero_le _) ?_
  rw [hm, hmain]
  show (n.after s').pending (ev :: evs) + _ < 0 + ∑ fd ∈ fds, n.alarm n.server fd
  simp only [halarm, List.length_cons] at hdue halarms
  omega

theorem registration_epollAdd (s : HttpServer Q) (fd : Fd) (interest : Interest) :
    (s.epollAdd fd interest).registration = s.registration ∨
      (s.epollAdd fd interest).registration =
        Function.update s.registration fd (some (some interest)) := by
  rw [HttpServer.epollAdd, HttpServer.registration_updateFile]
  cases hfile : s.files fd with
  | none =>
    refine .inl (Function.update_eq_self_iff.2 ?_)
    rw [HttpServer.registration, hfile]
    rfl
  | some f =>
    cases hepoll : f.epoll with
    | none => exact .inr (by simp [hepoll])
    | some armed =>
      refine .inl (Function.update_eq_self_iff.2 ?_)
      simp [HttpServer.registration, hfile, hepoll]

/-- The descriptor of a new connection is armed. -/
theorem less_add {rest : List Event} (hready : ReadyArmed n) (hm : n.server.main = .add fd rest)
    (hs' : s' = { n.server.epollAdd fd .input with main := .accept rest }) :
    Less fds n (n.after s') := by
  have howner : s'.owner = n.server.owner := by
    subst hs'
    exact HttpServer.owner_updateFile n.server fd fun _ => rfl
  have hreg : s'.registration = (n.server.epollAdd fd .input).registration := by rw [hs']; rfl
  have hstays : Stays n s' := by
    refine ⟨⟨⟨rfl, fun fd c hc => (congrFun howner fd).symm.trans hc, fun c => ?_, fun c => ?_⟩,
      fun fd c hc => ?_, fun c hc => ?_⟩, ?_, fun c => ?_, ?_, ?_⟩ <;> subst hs'
    exacts [List.prefix_refl _, List.prefix_refl _, hc, hc, rfl, le_rfl, rfl, rfl]
  have hdue : (n.after s').due fds ≤ n.due fds + n.rearming fd .input := by
    rcases registration_epollAdd n.server fd .input with hsame | harmed
    · have hdue : _ ≤ n.due fds :=
        due_le hstays.toSettles fun fd' => .inl (congrFun (hreg.trans hsame) fd')
      omega
    · have hreg' := hreg.trans harmed
      refine due_update hstays.toSettles hreg' (alarm_armed hready hstays.toSettles ?_)
      rw [hreg', Function.update_self]
  have hmain : s'.main = .accept rest := by rw [hs']
  have hpending := hstays.pending_le rest
  refine hstays.less (by rw [hmain]; exact Nat.zero_le _) ?_
  rw [hm, hmain]
  simp only [mainEffort]
  omega

/-- `beginProcessing` succeeds. -/
theorem less_begin {c : ConnId} {interest : Interest} {rest : List Event}
    (hm : n.server.main = .begin fd c interest rest)
    (hs' : s' = { n.server.setConn c ((n.server.conns c).setProcessing true) with
      main := .enqueue fd c interest rest }) : Less fds n (n.after s') := by
  have hconns : ∀ c', (s'.conns c').readBuf = (n.server.conns c').readBuf ∧
      (s'.conns c').closeAfterWrite = (n.server.conns c').closeAfterWrite := by
    rw [hs']
    exact conns_setConn rfl rfl
  have hstays : Stays n s' := by
    refine ⟨⟨⟨rfl, fun fd c hc => ?_, fun c => ?_, fun c => ?_⟩, fun fd c hc => ?_,
      fun c hc => (hconns c).2.trans hc⟩, ?_, fun c => (congrArg List.length (hconns c).1).le,
      ?_, ?_⟩ <;> subst hs'
    exacts [hc, List.prefix_refl _, List.prefix_refl _, hc, rfl, rfl, rfl]
  have hdue : _ ≤ n.due fds := due_le hstays.toSettles fun fd => .inl (by rw [hs']; rfl)
  have hmain : s'.main = .enqueue fd c interest rest := by rw [hs']
  have heffort := hstays.mainEffort_le (.enqueue fd c interest rest)
  refine hstays.less (by rw [hmain]; exact Nat.zero_le _) ?_
  rw [hm, hmain]
  simp only [mainEffort] at heffort ⊢
  omega

/-- A task is put into the queue. -/
theorem less_enqueue {c : ConnId} {interest : Interest} {rest : List Event}
    (hm : n.server.main = .enqueue fd c interest rest)
    (hs' : s' = { n.server with
      queue := n.server.queue ++ [⟨fd, c, HttpServer.beginPc interest⟩], main := .events rest }) :
    Less fds n (n.after s') := by
  have hsettles : Settles n (n.after s') := by
    rw [hs']
    exact settles_goto
  have hqueue : s'.queue = n.server.queue ++ [⟨fd, c, HttpServer.beginPc interest⟩] := by rw [hs']
  have htasks : s'.tasks = n.server.tasks := by rw [hs']
  have hmain : s'.main = .events rest := by rw [hs']
  refine .inr ⟨?_, ?_⟩
  · have hstock : (n.after s').stock fds ≤ n.stock fds :=
      stock_le hsettles.toTakes (by rw [hs']) fun c => by rw [hs']
    have hsupply : (n.after s').supply fds = (n.after s').stock fds + s'.main.cargo +
        ((s'.queue ++ s'.tasks).map fun t => t.pc.cargo).sum := rfl
    have hcargo : (HttpServer.beginPc interest).cargo = 0 := by cases interest <;> rfl
    rw [hsupply, supply, hqueue, htasks, hmain, hm]
    simp [hcargo, Main.cargo]
    omega
  · have hdue : _ ≤ n.due fds := due_le hsettles fun fd => .inl (by rw [hs']; rfl)
    have htask := hsettles.taskEffort_le n.server.queue n.server.tasks
    have heffort := hsettles.effort_le fd (HttpServer.beginPc interest)
    have hpending := hsettles.pending_le rest
    have hwork : (n.after s').work fds = (n.after s').mainEffort s'.main +
        (n.after s').taskEffort s'.queue s'.tasks + (n.after s').due fds := rfl
    rw [hwork, hqueue, htasks, hmain, work, hm]
    simp only [taskEffort, List.map_append, List.sum_append, List.map_cons, List.map_nil,
      List.sum_cons, List.sum_nil, mainEffort] at htask ⊢
    omega

/-- A thread makes a step of its handler. -/
theorem less_of_lowered {main : Main} {tasks : List Task} (h : Lowered fds n fd pc s₁ pc')
    (hs' : s' = { s₁ with main, tasks })
    (hcargo : main.cargo + ((s₁.queue ++ tasks).map fun t => t.pc.cargo).sum + pc.cargo ≤
      n.server.main.cargo + ((n.server.queue ++ n.server.tasks).map fun t => t.pc.cargo).sum +
        pc'.elim 0 Pc.cargo)
    (heffort : Settles n (n.after s') →
      (n.after s').mainEffort main + (n.after s').taskEffort s₁.queue tasks + n.effort fd pc <
        n.mainEffort n.server.main + n.taskEffort n.server.queue n.server.tasks +
          pc'.elim 0 fun q => (n.after s').effort fd q + 1) : Less fds n (n.after s') := by
  have hsupply : (n.after s').supply fds = (n.after s₁).stock fds + main.cargo +
      ((s₁.queue ++ tasks).map fun t => t.pc.cargo).sum := by
    rw [hs']
    rfl
  cases h with
  | moves hless =>
    refine .inl ?_
    rw [hsupply, supply]
    omega
  | settles hstock hsettles hdue =>
    have hsettles : Settles n (n.after s') := by
      rw [hs']
      exact ⟨⟨hsettles.peers, hsettles.owner, hsettles.received, hsettles.written⟩,
        hsettles.table, hsettles.ending⟩
    have hsteps : (n.after s').work fds = (n.after s').mainEffort main +
        (n.after s').taskEffort s₁.queue tasks + (n.after s₁).due fds := by
      rw [hs']
      rfl
    have hsame : (pc'.elim 0 fun q => (n.after s').effort fd q + 1) =
        pc'.elim 0 fun q => (n.after s₁).effort fd q + 1 := by
      rw [hs']
      rfl
    have heffort := heffort hsettles
    refine .inr ⟨?_, ?_⟩
    · rw [hsupply, supply]
      omega
    · rw [hsteps, work]
      omega

/-! ### Steps for nobody -/

/-- Time passes. -/
theorem pass_tick {d : ℕ} (hs' : s' = { n.server with now := n.server.now + d }) :
    Passes fds n (n.after s') := by
  have hmain : s'.main = n.server.main := by rw [hs']
  have hstays : Stays n s' := by
    rw [hs']
    exact stays_goto
  have hreg : s'.registration = n.server.registration := by rw [hs']; rfl
  refine ⟨hstays.supply_le (by rw [hmain]), ?_, fun fd =>
    signals_of_after hstays.toTakes (.inl (congrFun hreg fd))⟩
  have hwork : _ ≤ n.work fds + _ := hstays.work_le
  have hdue : _ ≤ n.due fds := due_le hstays.toSettles fun fd => .inl (congrFun hreg fd)
  have heffort := hstays.mainEffort_le n.server.main
  rw [hmain] at hwork
  omega

/-- The section of `stop` that closes every connection. -/
theorem pass_shutdown (hs' : s' = { n.server.closeAll with main := .stopped }) :
    Passes fds n (n.after s') := by
  have hconns : ∀ c, (s'.conns c).readBuf = (n.server.conns c).readBuf ∧
      (s'.conns c).closeAfterWrite = (n.server.conns c).closeAfterWrite := by
    intro c
    have hconn : s'.conns c = n.server.closeAll.conns c := by rw [hs']
    rw [hconn, HttpServer.closeAll]
    dsimp only
    split_ifs <;> exact ⟨rfl, rfl⟩
  have hstays : Stays n s' := by
    refine ⟨⟨⟨rfl, fun fd c hc => ?_, fun c => ?_, fun c => ?_⟩, fun fd c hc => ?_,
      fun c hc => (hconns c).2.trans hc⟩, ?_, fun c => (congrArg List.length (hconns c).1).le,
      ?_, ?_⟩
    · have howner : s'.owner fd = n.server.closeAll.owner fd := by rw [hs']; rfl
      change s'.owner fd = some c at hc
      rw [howner, HttpServer.owner_closeAll] at hc
      split_ifs at hc
      exact hc
    all_goals subst hs'
    · exact List.prefix_refl _
    · exact List.prefix_refl _
    · cases hc
    · rfl
    · rfl
    · rfl
  refine hstays.passes (by rw [hs']; rfl) fun fd => ?_
  have hreg : s'.registration fd =
      if fd ∈ n.server.connections then none else n.server.registration fd := by
    subst hs'
    simp only [HttpServer.registration, HttpServer.closeAll]
    split_ifs <;> rfl
  rw [hreg]
  split_ifs
  · exact .inr rfl
  · exact .inl rfl

end Steps

section Runs

variable {Q : Type} [PriorityQueue Q (TimerHeap.Node Fd ℕ) TimerHeap.later]
variable {reply : Bytes → Answer} {idle : ℕ} {n : Network Q} {s₁ s' : HttpServer Q} {fd : Fd}
variable {pc : Pc ConnId} {r : Sys} {pc' : Option (Pc ConnId)} {fds : Finset Fd}

/-! ### The main thread is busy -/

/-- A connection is put into the table. -/
theorem less_register {ip : Bytes} {rest : List Event}
    (hm : n.server.main = .register fd ip rest)
    (hs' : s' = { n.server.register idle fd ip with main := .add fd rest }) :
    Less fds n (n.after s') := by
  have htakes : Takes n (n.after s') := by
    subst hs'
    exact ⟨rfl, fun _ _ => id, fun _ => List.prefix_refl _, fun _ => List.prefix_refl _⟩
  have hsockets : ∑ fd ∈ fds, (n.after s').socketSupply fd ≤ ∑ fd ∈ fds, n.socketSupply fd :=
    Finset.sum_le_sum fun fd _ => htakes.socketSupply_mono fd
  have hfresh : (s'.conns n.server.next).readBuf = [] := by
    subst hs'
    show (Function.update n.server.conns n.server.next _ n.server.next).readBuf = []
    rw [Function.update_self]
  have hold : ∀ c ∈ Finset.range n.server.next, 2 * (s'.conns c).readBuf.length =
      2 * (n.server.conns c).readBuf.length := by
    intro c hc
    have hne : c ≠ n.server.next := (Finset.mem_range.1 hc).ne
    have hconn : s'.conns c = n.server.conns c := by
      subst hs'
      exact Function.update_of_ne hne _ _
    rw [hconn]
  have hbuffers : ∑ c ∈ Finset.range s'.next, 2 * (s'.conns c).readBuf.length =
      ∑ c ∈ Finset.range n.server.next, 2 * (n.server.conns c).readBuf.length := by
    have hnext : s'.next = n.server.next + 1 := by
      subst hs'
      rfl
    rw [hnext, Finset.sum_range_succ, Finset.sum_congr rfl hold, hfresh]
    rfl
  have hsupply : (n.after s').supply fds = ∑ fd ∈ fds, (n.after s').socketSupply fd +
      ∑ c ∈ Finset.range s'.next, 2 * (s'.conns c).readBuf.length + 0 +
        ((n.server.queue ++ n.server.tasks).map fun t => t.pc.cargo).sum := by
    subst hs'
    rfl
  refine .inl ?_
  rw [hsupply, hbuffers, supply, stock, hm, Main.cargo]
  omega

/-- `closeConnection` after a hang-up. -/
theorem less_close {rest : List Event} (hn : Sound fds n)
    (hreply : (reply []).closeAfterWrite = true)
    (hm : n.server.main = .closing fd pc (.events rest))
    (h : n.server.perform idle fd (pc.code reply) .done = some (s₁, pc'))
    (hs' : s' = { s₁ with main := pc'.elim (.events rest) fun q => .closing fd q (.events rest) }) :
    Less fds n (n.after s') := by
  obtain ⟨hpc, hmade⟩ := hn.server.closing fd pc (.events rest) hm
  have hlowered : Lowered fds n fd pc s₁ pc' :=
    lowered_perform hn.ready hreply hn.opened hmade.made rfl h
  have hqueue : s₁.queue = n.server.queue := by rw [HttpServer.perform_eq h]
  have htasks : s₁.tasks = n.server.tasks := by rw [HttpServer.perform_eq h]
  refine less_of_lowered hlowered hs' ?_ fun hsettles => ?_
  · have hcargo : pc.cargo = 0 := by
      rcases hpc with rfl | hpast
      · rfl
      · cases pc <;> first | rfl | cases hpast
    have hmain : (pc'.elim (Main.events rest) fun q => .closing fd q (.events rest)).cargo = 0 := by
      cases pc' <;> rfl
    rw [hqueue, htasks, hcargo, hmain]
    omega
  · have htask := hsettles.taskEffort_le n.server.queue n.server.tasks
    have hpending := hsettles.pending_le rest
    rw [hqueue, htasks, hm]
    cases pc' <;> simp only [Option.elim_none, Option.elim_some, mainEffort] <;> omega

theorem less_main {r : MainSys} (hn : Sound fds n) (hreply : (reply []).closeAfterWrite = true)
    (hbusy : n.server.main.busy = true) (hr : ∀ fd ip, r ≠ .accepted fd ip)
    (h : n.server.mainStep reply idle r = some s') : Less fds n (n.after s') := by
  cases HttpServer.mainStep_cases h with
  | listen hm => exact less_goto hm le_rfl (by simp [mainEffort, pending, eventEffort])
  | hangup hm =>
    exact less_goto hm le_rfl (by simp [mainEffort, pending, eventEffort, effort])
  | @ready fd i rest hm =>
    refine less_goto hm le_rfl ?_
    cases i <;>
      simp only [mainEffort, pending, eventEffort, HttpServer.beginPc, Interest.kind, List.map_cons,
        List.sum_cons] <;> omega
  | accepted hm hr' _ => exact absurd hr' (hr _ _)
  | refused hm => exact less_goto hm le_rfl (by simp [mainEffort])
  | register hm => exact less_register hm rfl
  | add hm => exact less_add hn.ready hm rfl
  | gone hm _ => exact less_goto hm le_rfl (by simp only [mainEffort]; omega)
  | dispatch hm _ => exact less_goto hm le_rfl (by simp only [mainEffort]; omega)
  | begin hm _ _ => exact less_begin hm rfl
  | discard hm _ => exact less_goto hm le_rfl (by simp only [mainEffort]; omega)
  | enqueue hm => exact less_enqueue hm rfl
  | @close fd pc caller s₁ pc' hm hperform =>
    cases caller with
    | events rest => exact less_close hn hreply hm hperform rfl
    | idle rest =>
      rw [hm] at hbusy
      cases hbusy
  | loop hm | wait hm _ _ | interrupted hm | failed hm | batchEnd hm | idle hm | idleEnd hm
  | idleNext hm _ | stop hm | join hm _ _ | shutdown hm _ =>
    rw [hm] at hbusy
    cases hbusy

/-! ### The main thread is not busy -/

/-- The expired timers are taken off the heap. -/
theorem popLoop_size {now k : ℕ} (h : TimerHeap Q Fd ℕ) :
    (TimerHeap.popLoop now k h).1.length + PriorityQueue.size (TimerHeap.popLoop now k h).2.heap ≤
      PriorityQueue.size h.heap := by
  induction k generalizing h with
  | zero => exact (Nat.zero_add _).le
  | succ k ih =>
    have hround := TimerHeap.popLoop_succ now k h
    generalize TimerHeap.popLoop now (k + 1) h = result at hround ⊢
    cases hround with
    | stop _ => exact (Nat.zero_add _).le
    | skip htop _ _ =>
      have hle := ih { h with heap := PriorityQueue.pop h.heap }
      have hsize := PriorityQueue.size_pop htop
      exact hle.trans (by rw [hsize]; exact Nat.le_succ _)
    | @expire node htop _ _ =>
      have hle := ih ⟨PriorityQueue.pop h.heap, h.latest.erase node.fd⟩
      have hsize := PriorityQueue.size_pop htop
      simp only [List.length_cons] at hle ⊢
      omega

theorem perform_close_keeps {s s' : HttpServer Q} (hpc : pc = .closeBegin ∨ pc.pastErase = true)
    (h : s.perform idle fd (pc.code reply) r = some (s', pc')) :
    (∀ c, (s'.conns c).readBuf = (s.conns c).readBuf ∧
      (s'.conns c).closeAfterWrite = (s.conns c).closeAfterWrite) ∧
      s'.timers.heap = s.timers.heap := by
  cases HttpServer.handler_cases h with
  | closeGone _ => exact ⟨fun _ => ⟨rfl, rfl⟩, rfl⟩
  | closeErase _ => exact ⟨fun _ => ⟨rfl, rfl⟩, rfl⟩
  | del => exact ⟨fun _ => ⟨rfl, rfl⟩, rfl⟩
  | close => exact ⟨fun _ => ⟨rfl, rfl⟩, rfl⟩
  | markClosed => exact ⟨conns_setConn rfl rfl, rfl⟩
  | _ => rcases hpc with hpc | hpc <;> cases hpc

/-- `closeConnection` after a timeout. -/
theorem pass_close {rest : List Fd} (hn : Sound fds n)
    (hm : n.server.main = .closing fd pc (.idle rest))
    (h : n.server.perform idle fd (pc.code reply) .done = some (s₁, pc'))
    (hs' : s' = { s₁ with main := pc'.elim (.expired rest) fun q => .closing fd q (.idle rest) }) :
    Passes fds n (n.after s') ∧ s'.passing < n.server.passing := by
  obtain ⟨hpc, -⟩ := hn.server.closing fd pc (.idle rest) hm
  obtain ⟨hconns, hheap⟩ := perform_close_keeps hpc h
  have hsettles : Settles n (n.after s₁) :=
    settles_perform h fun c hc => (hconns c).2.trans hc
  have hsame := HttpServer.perform_eq h
  have hstays : Stays n s' := by
    refine ⟨⟨⟨rfl, ?_, ?_, ?_⟩, ?_, ?_⟩, ?_, fun c => ?_, ?_, ?_⟩ <;> subst hs'
    exacts [hsettles.owner, hsettles.received, hsettles.written, hsettles.table, hsettles.ending,
      by rw [hsame], (congrArg List.length (hconns c).1).le, by rw [hsame], by rw [hsame]]
  constructor
  · refine hstays.passes ?_ fun fd' => ?_
    · subst hs'
      cases pc' <;> rfl
    · have hreg : s'.registration = s₁.registration := by rw [hs']; rfl
      rw [hreg]
      rcases HttpServer.perform_close_registration hpc h with hsame | hoff
      · exact .inl (congrFun hsame fd')
      · rw [hoff]
        by_cases hfd : fd' = fd
        · exact .inr (by rw [hfd, Function.update_self]; rfl)
        · exact .inl (Function.update_of_ne hfd _ _)
  · have hnodes : PriorityQueue.size s'.timers.heap = PriorityQueue.size n.server.timers.heap := by
      rw [hs', ← hheap]
    have hmain : s'.main = pc'.elim (.expired rest) fun q => .closing fd q (.idle rest) := by
      rw [hs']
    cases pc' with
    | none =>
      rw [Option.elim_none] at hmain
      simp only [HttpServer.passing, hm, hmain, hnodes]
      omega
    | some q =>
      have hrank := (HttpServer.perform_rank h).resolve_right (by simp [Sys.movesBytes])
      rw [Option.elim_some] at hmain
      simp only [HttpServer.passing, hm, hmain, hnodes]
      omega

/-- A step of the main thread while it is not busy: it comes nearer to `epoll_wait`, or leaves
it. -/
theorem pass_main {r : MainSys} (hn : Sound fds n) (hbusy : n.server.main.busy = false)
    (hr : r.brings = []) (h : n.server.mainStep reply idle r = some s') :
    Passes fds n (n.after s') ∧
      (s'.passing < n.server.passing ∨ n.server.main = .wait ∧ n.server.running = true) := by
  have hgoto : ∀ {running : Bool} {timers : TimerHeap Q Fd ℕ} {m : Main}, m.busy = false →
      Passes fds n (n.after { n.server with running, timers, main := m }) :=
    fun hm => stays_goto.passes hm fun _ => .inl rfl
  cases HttpServer.mainStep_cases h with
  | loop hm =>
    refine ⟨hgoto (by split_ifs <;> rfl), .inl ?_⟩
    cases n.server.running <;> simp [HttpServer.passing, hm]
  | wait hm hev hr' =>
    subst hr'
    obtain rfl : _ = [] := hr
    cases hev
    refine ⟨hgoto rfl, ?_⟩
    cases hrunning : n.server.running
    · exact .inl (by simp [HttpServer.passing, hm, hrunning])
    · exact .inr ⟨hm, rfl⟩
  | interrupted hm =>
    refine ⟨hgoto rfl, ?_⟩
    cases hrunning : n.server.running
    · exact .inl (by simp [HttpServer.passing, hm, hrunning]; omega)
    · exact .inr ⟨hm, rfl⟩
  | failed hm =>
    refine ⟨hgoto rfl, ?_⟩
    cases hrunning : n.server.running
    · exact .inl (by simp [HttpServer.passing, hm, hrunning]; omega)
    · exact .inr ⟨hm, rfl⟩
  | batchEnd hm => exact ⟨hgoto rfl, .inl (by simp [HttpServer.passing, hm])⟩
  | @close fd pc caller s₁ pc' hm hperform =>
    cases caller with
    | events rest =>
      rw [hm] at hbusy
      cases hbusy
    | idle rest =>
      obtain ⟨hpasses, hless⟩ := pass_close hn hm hperform rfl
      exact ⟨hpasses, .inl hless⟩
  | idle hm =>
    refine ⟨hgoto rfl, .inl ?_⟩
    have hsize : (n.server.timers.popExpired n.server.now).1.length +
        PriorityQueue.size (n.server.timers.popExpired n.server.now).2.heap ≤
          PriorityQueue.size n.server.timers.heap := popLoop_size n.server.timers
    simp only [HttpServer.passing, hm]
    omega
  | idleEnd hm => exact ⟨hgoto rfl, .inl (by simp only [HttpServer.passing, hm]; omega)⟩
  | idleNext hm _ =>
    refine ⟨hgoto rfl, .inl ?_⟩
    simp only [HttpServer.passing, hm, Pc.rank, List.length_cons]
    omega
  | stop hm => exact ⟨hgoto rfl, .inl (by simp [HttpServer.passing, hm])⟩
  | join hm _ _ => exact ⟨hgoto rfl, .inl (by simp [HttpServer.passing, hm])⟩
  | shutdown hm _ => exact ⟨pass_shutdown rfl, .inl (by simp [HttpServer.passing, hm])⟩
  | listen hm | hangup hm | ready hm | accepted hm _ _ | refused hm | register hm | add hm
  | gone hm _ | dispatch hm _ | begin hm _ _ | discard hm _ | enqueue hm =>
    rw [hm] at hbusy
    cases hbusy

/-! ### The workers -/

/-- A worker takes the first task of the queue. -/
theorem less_start (h : n.server.step reply idle .start = some s') :
    Less fds n (n.after s') := by
  obtain ⟨t, queue, hqueue, hs'⟩ := HttpServer.start_cases h
  have hsettles : Settles n (n.after s') := by
    rw [hs']
    exact settles_goto
  have hqueue' : s'.queue = queue := by rw [hs']
  have htasks : s'.tasks = n.server.tasks ++ [t] := by rw [hs']
  have hmain : s'.main = n.server.main := by rw [hs']
  refine .inr ⟨?_, ?_⟩
  · have hstock : (n.after s').stock fds ≤ n.stock fds :=
      stock_le hsettles.toTakes (by rw [hs']) fun c => by rw [hs']
    have hsupply : (n.after s').supply fds = (n.after s').stock fds + s'.main.cargo +
        ((s'.queue ++ s'.tasks).map fun t => t.pc.cargo).sum := rfl
    rw [hsupply, supply, hqueue', htasks, hmain, hqueue]
    simp only [List.map_append, List.sum_append, List.map_cons, List.map_nil, List.sum_cons,
      List.sum_nil]
    omega
  · have hdue : _ ≤ n.due fds := due_le hsettles fun fd => .inl (by rw [hs']; rfl)
    have htask := hsettles.taskEffort_le n.server.queue n.server.tasks
    have heffort := hsettles.mainEffort_le n.server.main
    have hwork : (n.after s').work fds = (n.after s').mainEffort s'.main +
        (n.after s').taskEffort s'.queue s'.tasks + (n.after s').due fds := rfl
    rw [hqueue] at htask
    rw [hwork, hqueue', htasks, hmain, work, hqueue]
    simp only [taskEffort, List.map_append, List.sum_append, List.map_cons, List.map_nil,
      List.sum_cons, List.sum_nil] at htask ⊢
    omega

/-- A worker makes a step of its task. -/
theorem less_task {i : ℕ} (hn : Sound fds n) (hreply : (reply []).closeAfterWrite = true)
    (hallows : n.allows (.task i r) = true)
    (h : n.server.step reply idle (.task i r) = some s') : Less fds n (n.after s') := by
  obtain ⟨l₁, t, l₂, s₁, pc', htasks, hi, hperform, hs'⟩ := HttpServer.taskStep_cases h
  have ht : t ∈ n.server.queue ++ n.server.tasks :=
    List.mem_append_right _ (List.mem_of_getElem? hi)
  have hadmits : n.admits t.fd r = true := by
    cases r with
    | done => rfl
    | read r =>
      rw [allows, hi] at hallows
      exact hallows
    | write r =>
      rw [allows, hi] at hallows
      exact hallows
  have hlowered : Lowered fds n t.fd t.pc s₁ pc' :=
    lowered_perform hn.ready hreply hn.opened (hn.server.task t ht).made hadmits hperform
  have hqueue : s₁.queue = n.server.queue := by rw [HttpServer.perform_eq hperform]
  have hmain : s₁.main = n.server.main := by rw [HttpServer.perform_eq hperform]
  refine less_of_lowered hlowered hs' ?_ fun hsettles => ?_
  · rw [hqueue, hmain, htasks]
    cases pc' <;>
      simp only [Option.map_none, Option.map_some, Option.toList_none, Option.toList_some,
        Option.elim_none, Option.elim_some, List.map_append, List.sum_append, List.map_cons,
        List.map_nil, List.sum_cons, List.sum_nil] <;>
      omega
  · have htask := hsettles.taskEffort_le n.server.queue (l₁ ++ l₂)
    have heffort := hsettles.mainEffort_le n.server.main
    rw [hqueue, hmain, htasks]
    simp only [taskEffort, List.map_append, List.sum_append] at htask
    cases pc' <;>
      simp only [taskEffort, Option.map_none, Option.map_some, Option.toList_none,
        Option.toList_some, Option.elim_none, Option.elim_some, List.map_append, List.sum_append,
        List.map_cons, List.map_nil, List.sum_cons, List.sum_nil] <;>
      omega

/-! ### `epoll` and the clock -/

/-- An entry of the ready list that has nothing to deliver is taken off. -/
theorem pass_skip {n' : Network Q} (h : n.step reply idle (.skip fd) = some n') :
    Passes fds n n' ∧ n'.server = n.server := by
  obtain ⟨-, hn'⟩ := Option.ite_none_left_eq_some.1 h
  have hn' : n' = { n with ready := Function.update n.ready fd false } := (Option.some.inj hn').symm
  have hserver : n'.server = n.server := by rw [hn']
  have hready : ∀ fd', n'.ready fd' = true → n.ready fd' = true := by
    intro fd' hready
    rw [hn'] at hready
    change Function.update n.ready fd false fd' = true at hready
    by_cases hfd : fd' = fd
    · rw [hfd, Function.update_self] at hready
      cases hready
    · rwa [Function.update_of_ne hfd] at hready
  have hsettles : Settles n n' := by
    rw [hn']
    exact ⟨⟨rfl, fun _ _ => id, fun _ => List.prefix_refl _, fun _ => List.prefix_refl _⟩,
      fun _ _ => id, fun _ => id⟩
  refine ⟨⟨?_, ?_, fun fd' hsignals => ?_⟩, hserver⟩
  · rw [hn']
    exact le_rfl
  · have htask := hsettles.taskEffort_le n.server.queue n.server.tasks
    have hmain := hsettles.mainEffort_le n.server.main
    have hdue : n'.due fds ≤ n.due fds := by
      refine Finset.sum_le_sum fun fd' _ => ?_
      rw [alarm, alarm, hserver]
      cases (n.server.registration fd').bind id with
      | none => exact le_rfl
      | some interest =>
        exact Nat.add_le_add (hsettles.coming_le fd' interest 0) (Bool.toNat_le_toNat (hready fd'))
    rw [work, work, hserver]
    omega
  · rw [signals, Bool.and_eq_true] at hsignals ⊢
    refine ⟨hready fd' hsignals.1, ?_⟩
    have hpolls := hsignals.2
    rw [hn'] at hpolls
    exact hpolls

end Runs

end Network

end MiniServer
