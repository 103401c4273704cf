import MiniServer.Server.Sound

/-!
# Handlers use up what they have

A step of a handler either uses up bytes, or nothing new comes up and the step is paid for
(`Lowered`, `lowered_perform`).  The result of the kernel decides which: what `read` returns is
taken from the socket, and when it fails with `EAGAIN` a poll finds no input, so that arming the
descriptor again brings nothing.

An event that is delivered is paid for by the descriptor that it disarms (`deliverAll_alarm`).
-/

namespace MiniServer

namespace Network

variable {Q : Type} {n : Network Q} {fd : Fd}

/-! ### The sockets -/

theorem ending_setConn {c : ConnId} {conn : Connection}
    (hending : (n.server.conns c).closeAfterWrite = true → conn.closeAfterWrite = true)
    (c' : ConnId) (hc' : (n.server.conns c').closeAfterWrite = true) :
    ((n.server.setConn c conn).conns c').closeAfterWrite = true := by
  show (Function.update n.server.conns c conn c').closeAfterWrite = true
  by_cases hc : c' = c
  · subst hc
    rw [Function.update_self]
    exact hending hc'
  · rwa [Function.update_of_ne hc]

/-- A section that only changes other fields of the object. -/
theorem conns_setConn {s : HttpServer Q} {c : ConnId} {conn : Connection}
    (hbuf : conn.readBuf = (s.conns c).readBuf)
    (hlast : conn.closeAfterWrite = (s.conns c).closeAfterWrite) (c' : ConnId) :
    ((s.setConn c conn).conns c').readBuf = (s.conns c').readBuf ∧
      ((s.setConn c conn).conns c').closeAfterWrite = (s.conns c').closeAfterWrite := by
  show (Function.update s.conns c conn c').readBuf = _ ∧
    (Function.update s.conns c conn c').closeAfterWrite = _
  by_cases hc : c' = c
  · subst hc
    rw [Function.update_self]
    exact ⟨hbuf, hlast⟩
  · rw [Function.update_of_ne hc]
    exact ⟨rfl, rfl⟩

theorem leaves_setConn {c : ConnId} {conn : Connection} (hconn : conn.closeAfterWrite = true)
    (h : n.leavesWith fd c = true) : (n.after (n.server.setConn c conn)).leaves fd = true := by
  rw [leavesWith, Option.all_eq_true] at h
  rw [leaves, Option.all_eq_true]
  intro c' hc'
  show (Function.update n.server.conns c conn c').closeAfterWrite = true
  by_cases hc : c' = c
  · rw [hc, Function.update_self, hconn]
  · rw [Function.update_of_ne hc]
    simpa [hc] using h c' hc'

theorem clearing_ge (n : Network Q) (fd : Fd) (last : Bool) : 5 ≤ n.clearing fd last := by
  cases last <;> simp only [clearing, Bool.false_eq_true, if_false, if_true] <;> omega

/-- No poll finds input on a socket on which `read` fails with `EAGAIN`. -/
theorem rearming_of_read_again (h : n.reads fd .again = true) : n.rearming fd .input = 0 := by
  rw [rearming, if_neg]
  unfold reads at h
  unfold polled
  cases howner : n.server.owner fd with
  | none => exact Bool.false_ne_true
  | some c =>
    rw [howner] at h
    simp only [Bool.and_eq_true, Bool.not_eq_true', decide_eq_true_eq] at h
    simp [polls, finds, Interest.kind, h.1.1, h.1.2, h.2]

/-- No poll finds room in a socket on which `writev` fails with `EAGAIN`. -/
theorem rearming_of_write_again (h : n.writes fd .again = true) : n.rearming fd .output = 0 := by
  rw [rearming, if_neg]
  unfold writes at h
  unfold polled
  cases howner : n.server.owner fd with
  | none => exact Bool.false_ne_true
  | some c =>
    rw [howner] at h
    simp only [Bool.and_eq_true, Bool.not_eq_true', decide_eq_true_eq] at h
    simp [polls, finds, Interest.kind, h.1, h.2]

theorem exists_of_read_data {bytes : Bytes} (h : n.reads fd (.data bytes) = true) :
    ∃ c, n.server.owner fd = some c ∧ bytes <+: n.inbox c := by
  unfold reads at h
  cases howner : n.server.owner fd with
  | none => simp [howner] at h
  | some c =>
    rw [howner] at h
    exact ⟨c, rfl, List.isPrefixOf_iff_prefix.1 h⟩

theorem exists_of_write_wrote {count : ℕ} (h : n.writes fd (.wrote count) = true) :
    ∃ c, n.server.owner fd = some c ∧ count ≤ n.room c := by
  unfold writes at h
  cases howner : n.server.owner fd with
  | none => simp [howner] at h
  | some c =>
    rw [howner] at h
    exact ⟨c, rfl, of_decide_eq_true h⟩

/-! ### Handlers -/

variable {s₁ : HttpServer Q} {pc : Pc ConnId} {pc' : Option (Pc ConnId)} {fds : Finset Fd}

/-- A step of a handler uses up bytes, or it settles and is paid for. -/
inductive Lowered (fds : Finset Fd) (n : Network Q) (fd : Fd) (pc : Pc ConnId)
    (s₁ : HttpServer Q) (pc' : Option (Pc ConnId)) : Prop
  | moves : pc'.elim 0 Pc.cargo + (n.after s₁).stock fds < pc.cargo + n.stock fds →
      Lowered fds n fd pc s₁ pc'
  | settles : pc'.elim 0 Pc.cargo + (n.after s₁).stock fds ≤ pc.cargo + n.stock fds →
      Settles n (n.after s₁) →
      (pc'.elim 0 fun q => (n.after s₁).effort fd q + 1) + (n.after s₁).due fds ≤
        n.effort fd pc + n.due fds → Lowered fds n fd pc s₁ pc'

theorem Lowered.paid {k : ℕ} (h : Settles n (n.after s₁))
    (hstock : pc'.elim 0 Pc.cargo + (n.after s₁).stock fds ≤ pc.cargo + n.stock fds)
    (hdue : (n.after s₁).due fds ≤ n.due fds + k)
    (heffort : (pc'.elim 0 fun q => n.effort fd q + 1) + k ≤ n.effort fd pc) :
    Lowered fds n fd pc s₁ pc' := by
  refine .settles hstock h ?_
  cases pc' with
  | none =>
    rw [Option.elim_none] at heffort ⊢
    omega
  | some q =>
    have hle := h.effort_le fd q
    rw [Option.elim_some] at heffort ⊢
    omega

section Handlers

variable [PriorityQueue Q (TimerHeap.Node Fd ℕ) TimerHeap.later]
variable {reply : Bytes → Answer} {idle : ℕ} {r : Sys}

theorem takes_perform (h : n.server.perform idle fd (pc.code reply) r = some (s₁, pc')) :
    Takes n (n.after s₁) where
  peers := rfl
  owner fd' c hc := by
    have howner := HttpServer.perform_owner_apply h fd'
    change s₁.owner fd' = some c at hc
    rw [hc] at howner
    split_ifs at howner
    exact howner.symm
  received c := by
    rcases HttpServer.perform_received h c with hsame | ⟨bytes, -, -, hread⟩
    · exact hsame ▸ List.prefix_refl _
    · exact ⟨bytes, hread.symm⟩
  written c := by
    rcases HttpServer.perform_written h c with hsame | ⟨count, bytes, -, -, -, hwrote⟩
    · exact hsame ▸ List.prefix_refl _
    · exact ⟨bytes, hwrote.symm⟩

theorem settles_perform (h : n.server.perform idle fd (pc.code reply) r = some (s₁, pc'))
    (hending : ∀ c, (n.server.conns c).closeAfterWrite = true →
      (s₁.conns c).closeAfterWrite = true) : Settles n (n.after s₁) where
  toTakes := takes_perform h
  table := (HttpServer.perform_effect h).table
  ending := hending

/-- A step that changes neither buffers nor descriptors. -/
theorem Lowered.same (h : n.server.perform idle fd (pc.code reply) r = some (s₁, pc'))
    (hconns : s₁.conns = n.server.conns) (hreg : s₁.registration = n.server.registration)
    (hnext : s₁.next = n.server.next) (hcargo : pc'.elim 0 Pc.cargo ≤ pc.cargo)
    (heffort : (pc'.elim 0 fun q => n.effort fd q + 1) ≤ n.effort fd pc) :
    Lowered fds n fd pc s₁ pc' := by
  have hsettles : Settles n (n.after s₁) := settles_perform h fun c hc => by rwa [hconns]
  have hstock : (n.after s₁).stock fds ≤ n.stock fds :=
    stock_le hsettles.toTakes hnext fun c => by rw [hconns]
  exact .paid (k := 0) hsettles (by omega) (due_le hsettles fun fd =>
    .inl (congrFun hreg fd)) heffort

/-- A section under the lock of a connection. -/
theorem Lowered.section {c : ConnId} {conn : Connection}
    (h : n.server.perform idle fd (pc.code reply) r = some (n.server.setConn c conn, pc'))
    (hending : (n.server.conns c).closeAfterWrite = true → conn.closeAfterWrite = true)
    (hstock : pc'.elim 0 Pc.cargo + (n.after (n.server.setConn c conn)).stock fds ≤
      pc.cargo + n.stock fds)
    (heffort : (pc'.elim 0 fun q => n.effort fd q + 1) ≤ n.effort fd pc) :
    Lowered fds n fd pc (n.server.setConn c conn) pc' := by
  have hsettles : Settles n (n.after (n.server.setConn c conn)) :=
    settles_perform h (ending_setConn hending)
  exact .paid (k := 0) hsettles hstock (due_le hsettles fun _ => .inl rfl) heffort

/-- A section that leaves the buffer alone. -/
theorem Lowered.keep {c : ConnId} {conn : Connection}
    (h : n.server.perform idle fd (pc.code reply) r = some (n.server.setConn c conn, pc'))
    (hending : (n.server.conns c).closeAfterWrite = true → conn.closeAfterWrite = true)
    (hbuf : conn.readBuf = (n.server.conns c).readBuf) (hcargo : pc'.elim 0 Pc.cargo ≤ pc.cargo)
    (heffort : (pc'.elim 0 fun q => n.effort fd q + 1) ≤ n.effort fd pc) :
    Lowered fds n fd pc (n.server.setConn c conn) pc' := by
  have hstock : (n.after (n.server.setConn c conn)).stock fds + 0 ≤ n.stock fds + 0 :=
    stock_setConn (takes_perform h) (by rw [hbuf]) (.inr le_rfl)
  exact .section h hending (by omega) heffort

/-- The last call of a handler arms the descriptor. -/
theorem Lowered.rearm {interest : Interest} (hready : ReadyArmed n)
    (h : n.server.perform idle fd (pc.code reply) r = some (n.server.epollMod fd interest, pc'))
    (hcargo : pc'.elim 0 Pc.cargo ≤ pc.cargo)
    (heffort : (pc'.elim 0 fun q => n.effort fd q + 1) + n.rearming fd interest ≤ n.effort fd pc) :
    Lowered fds n fd pc (n.server.epollMod fd interest) pc' := by
  have hsettles : Settles n (n.after (n.server.epollMod fd interest)) :=
    settles_perform h fun _ hc => hc
  have hstock : (n.after (n.server.epollMod fd interest)).stock fds ≤ n.stock fds :=
    stock_le hsettles.toTakes rfl fun _ => le_rfl
  exact .paid hsettles (by omega) (due_armed hready hsettles
    (HttpServer.registration_epollMod _ fd interest)) heffort

/-- A call of `closeConnection` takes the descriptor out of `epoll`. -/
theorem Lowered.off (h : n.server.perform idle fd (pc.code reply) r = some (s₁, pc'))
    (hconns : s₁.conns = n.server.conns) (hnext : s₁.next = n.server.next)
    (hreg : s₁.registration = Function.update n.server.registration fd none)
    (hcargo : pc'.elim 0 Pc.cargo ≤ pc.cargo)
    (heffort : (pc'.elim 0 fun q => n.effort fd q + 1) ≤ n.effort fd pc) :
    Lowered fds n fd pc s₁ pc' := by
  have hsettles : Settles n (n.after s₁) := settles_perform h fun c hc => by rwa [hconns]
  have hstock : (n.after s₁).stock fds ≤ n.stock fds :=
    stock_le hsettles.toTakes hnext fun c => by rw [hconns]
  refine .paid (k := 0) hsettles (by omega) (due_le hsettles fun fd' => ?_) heffort
  rw [hreg]
  by_cases hfd : fd' = fd
  · exact .inr (by rw [hfd, Function.update_self]; rfl)
  · exact .inl (Function.update_of_ne hfd _ _)

/-! ### The stages of `processConnectionTask` -/

/-- There is no whole request, and the descriptor is armed for input. -/
theorem Lowered.extractNone {c : ConnId} (hready : ReadyArmed n)
    (h : n.server.perform idle fd (Pc.code reply (.extract c)) r = some
      ((n.server.setConn c ((n.server.conns c).setProcessing false)).epollMod fd .input, none)) :
    Lowered fds n fd (.extract c)
      ((n.server.setConn c ((n.server.conns c).setProcessing false)).epollMod fd .input) none := by
  have hsame := @conns_setConn Q n.server c ((n.server.conns c).setProcessing false) rfl rfl
  have hsettles := settles_perform h fun c' hc' => (hsame c').2.trans hc'
  have hstock : _ ≤ n.stock fds := stock_le hsettles.toTakes rfl
    fun c' => (congrArg List.length (hsame c').1).le
  refine .paid hsettles ?_ (due_armed hready hsettles
    (HttpServer.registration_epollMod (n.server.setConn c _) fd .input)) ?_
  · simp only [Option.elim_none, Pc.cargo]
    omega
  · simp only [Option.elim_none, effort]
    omega

/-- A request is cut from the buffer. -/
theorem Lowered.extract {c : ConnId} {raw : Bytes} {conn : Connection} (hc : c < n.server.next)
    (hex : (n.server.conns c).extractOneRequest = some (raw, conn))
    (h : n.server.perform idle fd (Pc.code reply (.extract c)) r =
      some (n.server.setConn c conn, some (.respond c raw))) :
    Lowered fds n fd (.extract c) (n.server.setConn c conn) (some (.respond c raw)) := by
  obtain ⟨rest, hcut, rfl⟩ := Connection.extractOneRequest_eq_some_iff.1 hex
  have happend := Connection.framer.append_of_cut hcut
  by_cases hraw : raw = []
  · -- the length has wrapped around, and the buffer is as long as before
    subst hraw
    refine .keep h id happend (by simp [Pc.cargo]) ?_
    simp only [Option.elim_some, effort]
    omega
  · have hpos := List.length_pos_iff.2 hraw
    have hlength := congrArg List.length happend
    rw [List.length_append] at hlength
    have hstock : _ + 2 * raw.length ≤ n.stock fds + 0 := stock_setConn (takes_perform h)
      (by dsimp only; omega) (.inl hc)
    refine .moves ?_
    simp only [Option.elim_some, Pc.cargo, if_neg hraw]
    omega

/-- The response is queued. -/
theorem Lowered.respond {c : ConnId} {raw : Bytes} (hreply : (reply []).closeAfterWrite = true)
    (h : n.server.perform idle fd (Pc.code reply (.respond c raw)) r =
      some (n.server.setConn c ((reply raw).queue (n.server.conns c)),
        some (.finish c .output (some (reply raw))))) :
    Lowered fds n fd (.respond c raw) (n.server.setConn c ((reply raw).queue (n.server.conns c)))
      (some (.finish c .output (some (reply raw)))) := by
  have hstock : _ + 0 ≤ n.stock fds + 0 := stock_setConn (takes_perform h) (by simp) (.inr le_rfl)
  by_cases hraw : raw = []
  · -- the connection ends with this response
    subst hraw
    have hending : ((reply []).queue (n.server.conns c)).closeAfterWrite = true := by
      rw [Answer.queue_closeAfterWrite, hreply]
    have hsettles := settles_perform h (ending_setConn fun _ => hending)
    have hleaves : n.leavesWith fd c = true → _ := leaves_setConn hending
    have hcost := Settles.outputCost_le hleaves
    refine .settles (by simpa [Pc.cargo] using hstock) hsettles ?_
    have hdue : _ ≤ n.due fds := due_le hsettles fun _ => .inl rfl
    simp only [Option.elim_some, effort, rearming, cost]
    split_ifs <;> omega
  · refine .moves ?_
    simp only [Option.elim_some, Pc.cargo, if_neg hraw]
    omega

/-- **A step of a handler lowers what is left to do.** -/
theorem lowered_perform (hready : ReadyArmed n)
    (hreply : (reply []).closeAfterWrite = true)
    (hfds : ∀ fd, (n.server.owner fd).isSome = true → fd ∈ fds)
    (hconn : ∀ c ∈ pc.conn?, c < n.server.next) (hadmits : n.admits fd r = true)
    (h : n.server.perform idle fd (pc.code reply) r = some (s₁, pc')) :
    Lowered fds n fd pc s₁ pc' := by
  cases HttpServer.handler_cases h with
  | readFound hc => exact .same h rfl rfl rfl le_rfl le_rfl
  | readGone hc => exact .same h rfl rfl rfl le_rfl (Nat.zero_le _)
  | readData hbytes =>
    obtain ⟨c, howner, hprefix⟩ := exists_of_read_data hadmits
    have hfd : fd ∈ fds := hfds fd (by rw [howner]; rfl)
    have hstock := stock_read (takes_perform h) howner hprefix hfd
    have hpos := List.length_pos_iff.2 hbytes
    refine .moves ?_
    simp only [Option.elim_some, Pc.cargo]
    omega
  | readEnd => exact .same h rfl rfl rfl le_rfl (by simp [effort])
  | readAgain =>
    have hrearming := rearming_of_read_again hadmits
    exact .same h rfl rfl rfl le_rfl (by simp [effort, hrearming])
  | readError => exact .same h rfl rfl rfl le_rfl (by simp [effort])
  | @append c bytes =>
    refine .section h (by split_ifs <;> exact id) ?_ le_rfl
    have hstock : _ + 0 ≤ n.stock fds + 2 * bytes.length := stock_setConn (takes_perform h)
      (by split_ifs <;> simp [Connection.appendReadData]; omega) (.inr (Nat.zero_le _))
    simp only [Option.elim_some, Pc.cargo]
    omega
  | readRefresh =>
    exact .same h rfl (HttpServer.registration_refreshTimer idle _ fd) rfl le_rfl
      (by simp only [Option.elim_some, effort]; omega)
  | @writeFound c hc =>
    refine .same h rfl rfl rfl le_rfl ?_
    have hleaves : n.leaves fd = (n.server.conns c).closeAfterWrite := by rw [leaves, hc]; rfl
    simp only [Option.elim_some, effort, hleaves]
    omega
  | writeGone hc => exact .same h rfl rfl rfl le_rfl (Nat.zero_le _)
  | gather _ _ =>
    refine .same h rfl rfl rfl le_rfl ?_
    simp only [Option.elim_some, effort]
    omega
  | gatherEnd _ =>
    refine .same h rfl rfl rfl le_rfl ?_
    simp only [Option.elim_some, effort]
    omega
  | @wrote _ iov count hpos hle =>
    obtain ⟨c, howner, hroom⟩ := exists_of_write_wrote hadmits
    have hfd : fd ∈ fds := hfds fd (by rw [howner]; rfl)
    have hlength : (iov.flatten.take count).length = count := List.length_take_of_le hle
    have hstock := stock_wrote (takes_perform h) howner (hlength.trans_le hroom) hfd
    refine .moves ?_
    simp only [Option.elim_some, Pc.cargo]
    omega
  | @writeAgain c _ =>
    have hrearming := rearming_of_write_again hadmits
    have hclearing := n.clearing_ge fd (n.server.conns c).closeAfterWrite
    refine .same h rfl rfl rfl le_rfl ?_
    simp only [Option.elim_some, effort, hrearming]
    omega
  | @writeError c _ =>
    have hclearing := n.clearing_ge fd (n.server.conns c).closeAfterWrite
    exact .same h rfl rfl rfl le_rfl (by simp only [Option.elim_some, effort]; omega)
  | consume =>
    exact .keep h (by simp) (by simp) le_rfl (by simp only [Option.elim_some, effort]; omega)
  | @clearClose c hclose =>
    exact .keep h id rfl le_rfl (by simp [effort, clearing, hclose])
  | @clear c hclose =>
    refine .keep h id rfl le_rfl ?_
    simp only [Option.elim_some, effort, clearing, hclose, Bool.false_eq_true, if_false]
    omega
  | writeRefreshMore =>
    exact .same h rfl (HttpServer.registration_refreshTimer idle _ fd) rfl le_rfl
      (by simp only [Option.elim_some, effort]; omega)
  | writeRefresh =>
    exact .same h rfl (HttpServer.registration_refreshTimer idle _ fd) rfl le_rfl
      (by simp only [Option.elim_some, effort]; omega)
  | @processFound c hc =>
    refine .same h rfl rfl rfl le_rfl ?_
    have hleaves : n.leavesWith fd c = true := by simp [leavesWith, hc]
    simp only [Option.elim_some, effort, hleaves, outputCost, if_true]
    omega
  | processGone hc => exact .same h rfl rfl rfl le_rfl (Nat.zero_le _)
  | extractNone _ => exact .extractNone hready h
  | extract _ hex => exact .extract (hconn _ rfl) hex h
  | respondClosed hclosed => exact .same h rfl rfl rfl (Nat.zero_le _) (Nat.zero_le _)
  | respond _ => exact .respond hreply h
  | finish =>
    refine .keep h (by split_ifs <;> exact id) (by split_ifs <;> rfl) le_rfl ?_
    simp only [Option.elim_some, effort]
    omega
  | rearm => exact .rearm hready h le_rfl (by simp [effort])
  | rearmLog => exact .rearm hready h le_rfl (by simp [effort])
  | access => exact .same h rfl rfl rfl le_rfl (Nat.zero_le _)
  | closeGone hc => exact .same h rfl rfl rfl le_rfl (Nat.zero_le _)
  | closeErase hc => exact .same h rfl rfl rfl le_rfl le_rfl
  | markClosed => exact .keep h id rfl le_rfl le_rfl
  | del => exact .off h rfl rfl (HttpServer.registration_epollDel _ fd) le_rfl le_rfl
  | close =>
    exact .off h rfl rfl (HttpServer.registration_closeFile _ fd) le_rfl (Nat.zero_le _)

end Handlers

/-! ### Events -/

/-- An event is delivered on an armed descriptor and disarms it. -/
theorem deliver_client {s s' : HttpServer Q} {fd : Fd} {kind : Kind}
    (h : s.deliver (.client fd kind) = some s') :
    ∃ interest, s.registration fd = some (some interest) ∧ kind.possible interest = true ∧
      s'.registration = Function.update s.registration fd (some none) := by
  simp only [HttpServer.deliver] at h
  split at h
  · rename_i interest hreg
    split_ifs at h with hpossible
    cases h
    have hreg : s.registration fd = some (some interest) := hreg
    refine ⟨interest, hreg, hpossible, ?_⟩
    obtain ⟨f, hf, -⟩ := Option.bind_eq_some_iff.1 hreg
    rw [HttpServer.registration_updateFile, hf]
    rfl
  · cases h

/-- An armed descriptor has the steps coming that an event of it takes. -/
theorem eventEffort_le {n : Network Q} {s : HttpServer Q} {fd : Fd} {kind : Kind}
    {interest : Interest} (hreg : s.registration fd = some (some interest))
    (hpossible : kind.possible interest = true)
    (hdelivers : n.delivers (.client fd kind) = true) :
    n.eventEffort (.client fd kind) + 1 ≤ n.alarm s fd := by
  rw [delivers, Bool.and_eq_true, Option.any_eq_true] at hdelivers
  obtain ⟨hready, c, howner, hfinds⟩ := hdelivers
  have hpolled : n.polled fd interest = true := by
    rw [polled, howner, Option.any_some, polls, Bool.or_eq_true]
    cases kind <;> cases interest <;>
      first | exact .inl hfinds | exact .inr hfinds | cases hpossible
  have halarm : n.alarm s fd = n.cost fd interest + 1 := by
    rw [alarm, hreg, hready]
    simp [hpolled]
  have hinput : n.rearming fd .input ≤ 31 := by
    unfold rearming
    split_ifs <;> simp [cost]
  rw [halarm]
  cases kind with
  | hangup =>
    cases interest with
    | input => exact Nat.le_of_ble_eq_true rfl
    | output =>
      simp only [eventEffort, cost, outputCost]
      split_ifs <;> omega
  | input =>
    cases interest with
    | input => exact le_rfl
    | output => cases hpossible
  | output =>
    cases interest with
    | input => cases hpossible
    | output =>
      simp only [eventEffort, effort, cost, outputCost, clearing]
      split_ifs <;> omega

theorem deliver_alarm {n : Network Q} {fds : Finset Fd} {s s' : HttpServer Q} {ev : Event}
    (hfds : ∀ fd, (n.server.owner fd).isSome = true → fd ∈ fds) (hev : ev ≠ .listen)
    (hdelivers : n.delivers ev = true) (h : s.deliver ev = some s') :
    ∑ fd ∈ fds, n.alarm s' fd + (n.eventEffort ev + 1) ≤ ∑ fd ∈ fds, n.alarm s fd ∧
      ∀ fd, s'.registration fd = s.registration fd ∨ (s'.registration fd).bind id = none := by
  cases ev with
  | listen => exact absurd rfl hev
  | client fd kind =>
    obtain ⟨interest, hreg, hpossible, hreg'⟩ := deliver_client h
    have hfd : fd ∈ fds := by
      rw [delivers, Bool.and_eq_true, Option.any_eq_true] at hdelivers
      obtain ⟨-, c, howner, -⟩ := hdelivers
      exact hfds fd (by rw [howner]; rfl)
    have hoff : n.alarm s' fd = 0 := alarm_off (by rw [hreg', Function.update_self]; rfl)
    have hpaid := eventEffort_le hreg hpossible hdelivers
    constructor
    · refine sum_add_le (b := 0) (fun fd' hne => ?_) (by omega) (.inl hfd)
      rw [alarm, alarm, hreg', Function.update_of_ne hne]
    · intro fd'
      by_cases hne : fd' = fd
      · exact .inr (by rw [hne, hreg', Function.update_self]; rfl)
      · exact .inl (by rw [hreg', Function.update_of_ne hne])

theorem deliverAll_alarm {n : Network Q} {fds : Finset Fd} {s s' : HttpServer Q} {evs : List Event}
    (hfds : ∀ fd, (n.server.owner fd).isSome = true → fd ∈ fds) (hlisten : Event.listen ∉ evs)
    (hdelivers : evs.all n.delivers = true) (h : s.deliverAll evs = some s') :
    ∑ fd ∈ fds, n.alarm s' fd + (n.pending evs + evs.length) ≤ ∑ fd ∈ fds, n.alarm s fd ∧
      ∀ fd, s'.registration fd = s.registration fd ∨ (s'.registration fd).bind id = none := by
  induction evs generalizing s with
  | nil =>
    cases h
    exact ⟨le_rfl, fun _ => .inl rfl⟩
  | cons ev evs ih =>
    obtain ⟨s₁, hev, h⟩ := Option.bind_eq_some_iff.1 h
    rw [List.all_cons, Bool.and_eq_true] at hdelivers
    rw [List.mem_cons, not_or] at hlisten
    obtain ⟨halarm, hreg⟩ := deliver_alarm hfds (Ne.symm hlisten.1) hdelivers.1 hev
    obtain ⟨halarms, hregs⟩ := ih hlisten.2 hdelivers.2 h
    refine ⟨?_, fun fd => ?_⟩
    · simp only [pending, List.map_cons, List.sum_cons, List.length_cons] at halarms ⊢
      omega
    · rcases hregs fd with heq | hnone
      · rw [heq]
        exact hreg fd
      · exact .inr hnone

end Network

end MiniServer
