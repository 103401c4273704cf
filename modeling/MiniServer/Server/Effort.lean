import Mathlib.Algebra.GroupWithZero.Nat
import Mathlib.Algebra.Order.BigOperators.Group.Finset
import Mathlib.Data.Prod.Lex
import MiniServer.Server.Network

/-!
# What is left to do

When the clients are silent, a server has only so much left to do.  Two numbers bound it, the second
one below the first.

`supply` counts bytes: those that can still be read, those for which there is room, and those that
are read and not cut yet.  It never grows, and every byte that moves and every request that is cut
lowers it.

`work` counts steps.  A descriptor that is armed has an event coming only if a poll of its socket
finds something, and it is armed again at the end of a handler.  So a handler is charged for what
its own re-arm will bring (`rearming`).  It has nothing to pay when it has found the socket empty or
full, because that remains so for as long as the client is silent.

One request shortens no buffer: where the declared length makes `extractOneRequest` wrap around to a
length of 0, the empty request is cut again and again.  Its answer closes the connection, so that it
is cut once on the way of a handler (`leaves`).
-/

namespace MiniServer

/-- Two sums that differ in one place. -/
theorem sum_add_le {ι : Type*} [DecidableEq ι] {s : Finset ι} {f g : ι → ℕ} {i : ι} {a b : ℕ}
    (hother : ∀ j ≠ i, f j ≤ g j) (hi : f i + a ≤ g i + b) (hmem : i ∈ s ∨ a ≤ b) :
    ∑ j ∈ s, f j + a ≤ ∑ j ∈ s, g j + b := by
  by_cases hs : i ∈ s
  · have hsum : ∑ j ∈ s.erase i, f j ≤ ∑ j ∈ s.erase i, g j :=
      Finset.sum_le_sum fun j hj => hother j (Finset.ne_of_mem_erase hj)
    rw [← Finset.add_sum_erase s f hs, ← Finset.add_sum_erase s g hs]
    omega
  · have hsum : ∑ j ∈ s, f j ≤ ∑ j ∈ s, g j :=
      Finset.sum_le_sum fun j hj => hother j (ne_of_mem_of_not_mem hj hs)
    have hle := hmem.resolve_left hs
    omega

/-- The bytes that a handler has read and not put into the buffer, and the request it has cut. -/
def Pc.cargo {C : Type} : Pc C → ℕ
  | .append _ bytes => 2 * bytes.length
  | .respond _ raw => if raw = [] then 0 else 1
  | _ => 0

/-- A connection that will be in the table. -/
def Main.cargo : Main → ℕ
  | .register _ _ _ => 1
  | _ => 0

namespace Network

variable {Q : Type}

/-! ### Bytes -/

/-- What can still be read from the socket behind a number and written to it. -/
def socketSupply (n : Network Q) (fd : Fd) : ℕ :=
  (n.server.owner fd).elim 0 fun c => 3 * (n.inbox c).length + n.room c

/-- The bytes in the sockets and in the buffers. -/
def stock (fds : Finset Fd) (n : Network Q) : ℕ :=
  ∑ fd ∈ fds, n.socketSupply fd +
    ∑ c ∈ Finset.range n.server.next, 2 * (n.server.conns c).readBuf.length

/-- The bytes that are left. -/
def supply (fds : Finset Fd) (n : Network Q) : ℕ :=
  n.stock fds + n.server.main.cargo +
    ((n.server.queue ++ n.server.tasks).map fun t => t.pc.cargo).sum

/-! ### Steps -/

/-- A poll of the socket behind a number finds something. -/
def polled (n : Network Q) (fd : Fd) (interest : Interest) : Bool :=
  (n.server.owner fd).any fun c => n.polls c interest

/-- The connection behind a number, if there is one, ends with the response that is written. -/
def leaves (n : Network Q) (fd : Fd) : Bool :=
  (n.server.connections.lookup fd).all fun c => (n.server.conns c).closeAfterWrite

/-- The connection behind a number ends with the response, once there is one for `c`. -/
def leavesWith (n : Network Q) (fd : Fd) (c : ConnId) : Bool :=
  (n.server.connections.lookup fd).all fun c' => c' = c || (n.server.conns c').closeAfterWrite

/-- The steps from an event for output on, where the connection ends with the response or not. -/
def outputCost (last : Bool) : ℕ := if last then 15 else 64

/-- The steps from the event of an armed descriptor to the end of the handler. -/
def cost (n : Network Q) (fd : Fd) : Interest → ℕ
  | .input => 30
  | .output => outputCost (n.leaves fd)

/-- What an armed descriptor has coming when it is armed again. -/
def rearming (n : Network Q) (fd : Fd) (interest : Interest) : ℕ :=
  if n.polled fd interest then n.cost fd interest + 1 else 0

/-- The steps of `handleWrite` behind its loop. -/
def clearing (n : Network Q) (fd : Fd) (last : Bool) : ℕ :=
  if last then 5 else 23 + n.rearming fd .input

/-- The steps that are left for a handler, with the event for which it arms its descriptor. -/
def effort (n : Network Q) (fd : Fd) : Pc ConnId → ℕ
  | .access _ _ => 0
  | .close => 1
  | .del => 2
  | .markClosed _ => 3
  | .closeBegin => 4
  | .rearm _ interest _ => 1 + n.rearming fd interest
  | .finish _ interest _ => 2 + n.rearming fd interest
  | .respond c _ => 4 + outputCost (n.leavesWith fd c)
  | .extract c => 5 + outputCost (n.leavesWith fd c) + n.rearming fd .input
  | .processBegin => 21 + n.rearming fd .input
  | .readRefresh | .writeRefresh _ _ => 22 + n.rearming fd .input
  | .clear c => n.clearing fd (n.server.conns c).closeAfterWrite
  | .writev c _ => 2 + n.clearing fd (n.server.conns c).closeAfterWrite
  | .gather c => 3 + n.clearing fd (n.server.conns c).closeAfterWrite
  | .consume c _ => 4 + n.clearing fd (n.server.conns c).closeAfterWrite
  | .writeBegin => 4 + n.clearing fd (n.leaves fd)
  | .read _ => 23
  | .append _ _ | .readBegin => 24

/-- The steps that are left for a delivered event. -/
def eventEffort (n : Network Q) : Event → ℕ
  | .listen => 2
  | .client _ .hangup => 6
  | .client fd .input => 6 + n.effort fd .readBegin
  | .client fd .output => 6 + n.effort fd .writeBegin

/-- The steps that are left for the delivered events. -/
def pending (n : Network Q) (rest : List Event) : ℕ := (rest.map n.eventEffort).sum

/-- The steps of the main thread that are left for the events it has. -/
def mainEffort (n : Network Q) : Main → ℕ
  | .events rest => n.pending rest
  | .accept rest => 1 + n.pending rest
  | .register fd _ rest => 3 + n.rearming fd .input + n.pending rest
  | .add fd rest => 2 + n.rearming fd .input + n.pending rest
  | .dispatch fd interest rest => 5 + n.effort fd (HttpServer.beginPc interest) + n.pending rest
  | .begin fd _ interest rest => 4 + n.effort fd (HttpServer.beginPc interest) + n.pending rest
  | .enqueue fd _ interest rest => 3 + n.effort fd (HttpServer.beginPc interest) + n.pending rest
  | .closing fd pc (.events rest) => 1 + n.effort fd pc + n.pending rest
  | _ => 0

/-- What an armed descriptor has coming, with its entry on the ready list. -/
def alarm (n : Network Q) (server : HttpServer Q) (fd : Fd) : ℕ :=
  ((server.registration fd).bind id).elim 0 fun interest =>
    (if n.polled fd interest then n.cost fd interest else 0) + (n.ready fd).toNat

/-- The steps that are left for the tasks. -/
def taskEffort (n : Network Q) (queue tasks : List Task) : ℕ :=
  (queue.map fun t => n.effort t.fd t.pc + 2).sum + (tasks.map fun t => n.effort t.fd t.pc + 1).sum

/-- The sockets after a step of the server. -/
def after (n : Network Q) (server : HttpServer Q) : Network Q :=
  { n with server, ready := n.listed server }

/-! ### What is left becomes less -/

/-- The server takes from the sockets, and none is opened. -/
structure Takes (n n' : Network Q) : Prop where
  peers : n'.peers = n.peers
  owner : ∀ fd c, n'.server.owner fd = some c → n.server.owner fd = some c
  received : ∀ c, n.server.received c <+: n'.server.received c
  written : ∀ c, n.server.written c <+: n'.server.written c

/-- Moreover no connection is put into the table, and none that is about to end goes on. -/
structure Settles (n n' : Network Q) : Prop extends Takes n n' where
  table : ∀ fd c, n'.server.connections.lookup fd = some c → n.server.connections.lookup fd = some c
  ending : ∀ c, (n.server.conns c).closeAfterWrite = true →
    (n'.server.conns c).closeAfterWrite = true

/-- An entry of the ready list is armed. -/
def ReadyArmed (n : Network Q) : Prop := ∀ fd, n.ready fd = true → n.server.armed fd = true

namespace Takes

variable {n n' : Network Q}

theorem polled (h : Takes n n') {fd : Fd} {interest : Interest}
    (hpolled : n'.polled fd interest = true) : n.polled fd interest = true := by
  obtain ⟨c, howner, hpolls⟩ := (Option.any_eq_true _ _).1 hpolled
  exact (Option.any_eq_true _ _).2 ⟨c, h.owner fd c howner,
    polls_mono (congrFun h.peers c) (h.received c) (h.written c) hpolls⟩

theorem inbox_le (h : Takes n n') (c : ConnId) : (n'.inbox c).length ≤ (n.inbox c).length := by
  have hle := (h.received c).length_le
  simp only [inbox, h.peers, List.length_drop]
  omega

theorem room_le (h : Takes n n') (c : ConnId) : n'.room c ≤ n.room c := by
  have hle := (h.written c).length_le
  simp only [room, h.peers]
  omega

/-- The socket behind a number is the same one as before, or closed. -/
theorem socketSupply_le (h : Takes n n') {fd : Fd} {c : ConnId} {k : ℕ}
    (howner : n.server.owner fd = some c) (hless : 3 * (n'.inbox c).length + n'.room c + k ≤
      3 * (n.inbox c).length + n.room c) : n'.socketSupply fd + k ≤ n.socketSupply fd := by
  rw [socketSupply, socketSupply, howner, Option.elim_some]
  cases howner' : n'.server.owner fd with
  | none =>
    rw [Option.elim_none]
    omega
  | some c' =>
    obtain rfl := Option.some.inj ((h.owner fd c' howner').symm.trans howner)
    exact hless

theorem socketSupply_mono (h : Takes n n') (fd : Fd) : n'.socketSupply fd ≤ n.socketSupply fd := by
  cases howner : n.server.owner fd with
  | none =>
    have hnone : n'.server.owner fd = none := by
      rw [Option.eq_none_iff_forall_ne_some]
      intro c hc
      rw [h.owner fd c hc] at howner
      cases howner
    rw [socketSupply, hnone]
    exact Nat.zero_le _
  | some c =>
    have hinbox := h.inbox_le c
    have hroom := h.room_le c
    exact h.socketSupply_le (k := 0) howner (by omega)

end Takes

namespace Settles

variable {n n' : Network Q}

theorem leaves (h : Settles n n') {fd : Fd} (hleaves : n.leaves fd = true) :
    n'.leaves fd = true := by
  rw [Network.leaves, Option.all_eq_true] at hleaves ⊢
  exact fun c hc => h.ending c (hleaves c (h.table fd c hc))

theorem leavesWith (h : Settles n n') {fd : Fd} {c : ConnId} (hleaves : n.leavesWith fd c = true) :
    n'.leavesWith fd c = true := by
  rw [Network.leavesWith, Option.all_eq_true] at hleaves ⊢
  intro c' hc'
  have hold := hleaves c' (h.table fd c' hc')
  rw [Bool.or_eq_true] at hold ⊢
  exact hold.imp_right (h.ending c')

theorem outputCost_le {last last' : Bool} (h : last = true → last' = true) :
    outputCost last' ≤ outputCost last := by
  cases last <;> cases last' <;> simp_all [outputCost]

theorem cost_le (h : Settles n n') (fd : Fd) (interest : Interest) :
    n'.cost fd interest ≤ n.cost fd interest := by
  cases interest with
  | input => exact le_rfl
  | output => exact outputCost_le h.leaves

/-- What an armed descriptor has coming becomes less. -/
theorem coming_le (h : Settles n n') (fd : Fd) (interest : Interest) (k : ℕ) :
    (if n'.polled fd interest then n'.cost fd interest + k else 0) ≤
      if n.polled fd interest then n.cost fd interest + k else 0 := by
  have hcost := h.cost_le fd interest
  split_ifs with hpolled' hpolled
  · omega
  · exact absurd (h.polled hpolled') hpolled
  · exact Nat.zero_le _
  · exact le_rfl

theorem rearming_le (h : Settles n n') (fd : Fd) (interest : Interest) :
    n'.rearming fd interest ≤ n.rearming fd interest := h.coming_le fd interest 1

theorem clearing_le (h : Settles n n') (fd : Fd) {last last' : Bool}
    (hlast : last = true → last' = true) : n'.clearing fd last' ≤ n.clearing fd last := by
  have hinput := h.rearming_le fd .input
  cases last with
  | true =>
    rw [hlast rfl]
    exact le_rfl
  | false =>
    cases last' <;> simp only [clearing, Bool.false_eq_true, if_false, if_true] <;> omega

theorem effort_le (h : Settles n n') (fd : Fd) (pc : Pc ConnId) :
    n'.effort fd pc ≤ n.effort fd pc := by
  have hinput := h.rearming_le fd .input
  cases pc with
  | rearm c interest record => exact Nat.add_le_add_left (h.rearming_le fd interest) 1
  | finish c interest record => exact Nat.add_le_add_left (h.rearming_le fd interest) 2
  | respond c raw => exact Nat.add_le_add_left (outputCost_le h.leavesWith) 4
  | extract c => exact Nat.add_le_add (Nat.add_le_add_left (outputCost_le h.leavesWith) 5) hinput
  | clear c => exact h.clearing_le fd (h.ending c)
  | writev c iov => exact Nat.add_le_add_left (h.clearing_le fd (h.ending c)) 2
  | gather c => exact Nat.add_le_add_left (h.clearing_le fd (h.ending c)) 3
  | consume c count => exact Nat.add_le_add_left (h.clearing_le fd (h.ending c)) 4
  | writeBegin => exact Nat.add_le_add_left (h.clearing_le fd h.leaves) 4
  | _ =>
    simp only [effort]
    omega

theorem pending_le (h : Settles n n') (rest : List Event) : n'.pending rest ≤ n.pending rest := by
  refine List.sum_le_sum fun ev _ => ?_
  rcases ev with _ | ⟨fd, _ | _ | _⟩
  · exact le_rfl
  · exact le_rfl
  · exact le_rfl
  · exact Nat.add_le_add_left (h.effort_le fd .writeBegin) 6

theorem mainEffort_le (h : Settles n n') (m : Main) : n'.mainEffort m ≤ n.mainEffort m := by
  cases m with
  | events rest => exact h.pending_le rest
  | accept rest => exact Nat.add_le_add_left (h.pending_le rest) 1
  | register fd ip rest =>
    exact Nat.add_le_add (Nat.add_le_add_left (h.rearming_le fd .input) 3) (h.pending_le rest)
  | add fd rest =>
    exact Nat.add_le_add (Nat.add_le_add_left (h.rearming_le fd .input) 2) (h.pending_le rest)
  | dispatch fd interest rest =>
    exact Nat.add_le_add (Nat.add_le_add_left (h.effort_le fd _) 5) (h.pending_le rest)
  | begin fd c interest rest =>
    exact Nat.add_le_add (Nat.add_le_add_left (h.effort_le fd _) 4) (h.pending_le rest)
  | enqueue fd c interest rest =>
    exact Nat.add_le_add (Nat.add_le_add_left (h.effort_le fd _) 3) (h.pending_le rest)
  | closing fd pc caller =>
    cases caller with
    | events rest =>
      exact Nat.add_le_add (Nat.add_le_add_left (h.effort_le fd pc) 1) (h.pending_le rest)
    | idle rest => exact le_rfl
  | _ => exact le_rfl

theorem taskEffort_le (h : Settles n n') (queue tasks : List Task) :
    n'.taskEffort queue tasks ≤ n.taskEffort queue tasks :=
  Nat.add_le_add (List.sum_le_sum fun t _ => Nat.add_le_add_right (h.effort_le t.fd t.pc) 2)
    (List.sum_le_sum fun t _ => Nat.add_le_add_right (h.effort_le t.fd t.pc) 1)

end Settles

/-! ### Descriptors that are armed -/

section Alarm

variable {n : Network Q} {server : HttpServer Q} {fd : Fd}

theorem alarm_off {n' : Network Q} (hreg : (server.registration fd).bind id = none) :
    n'.alarm server fd = 0 := by
  rw [alarm, hreg]
  rfl

/-- A descriptor that stays registered as it is has not more coming. -/
theorem alarm_same (h : Settles n (n.after server))
    (hreg : server.registration fd = n.server.registration fd) :
    (n.after server).alarm server fd ≤ n.alarm n.server fd := by
  unfold alarm
  rw [hreg]
  rcases hold : n.server.registration fd with _ | _ | interest
  · exact le_rfl
  · exact le_rfl
  · have hready : (n.after server).ready fd = n.ready fd := by
      simp [after, listed, hreg, hold]
    simp only [Option.bind_some, id, Option.elim_some, hready]
    exact Nat.add_le_add_right (h.coming_le fd interest 0) _

/-- What comes when a descriptor is armed again has been charged for. -/
theorem alarm_armed (hready : ReadyArmed n) (h : Settles n (n.after server))
    {interest : Interest} (hreg : server.registration fd = some (some interest)) :
    (n.after server).alarm server fd ≤ n.alarm n.server fd + n.rearming fd interest := by
  have hlisted : (n.ready fd).toNat ≤ n.alarm n.server fd := by
    cases hr : n.ready fd with
    | false => exact Nat.zero_le _
    | true =>
      obtain ⟨armed, harmed⟩ := Option.isSome_iff_exists.1 (hready fd hr)
      rw [alarm, harmed, hr]
      exact Nat.le_add_left _ _
  have hentry : (n.after server).ready fd = (n.ready fd ||
      (n.server.registration fd ≠ some (some interest) &&
        (n.after server).polled fd interest)) := by
    simp only [after, listed, hreg]
    rfl
  have hafter : (n.after server).alarm server fd =
      (if (n.after server).polled fd interest then (n.after server).cost fd interest else 0) +
        ((n.after server).ready fd).toNat := by
    rw [alarm, hreg]
    rfl
  rw [hafter]
  cases hpolled' : (n.after server).polled fd interest with
  | false =>
    rw [hentry, hpolled', Bool.and_false, Bool.or_false, if_neg Bool.false_ne_true]
    omega
  | true =>
    have hle := Bool.toNat_le ((n.after server).ready fd)
    have hcost := h.cost_le fd interest
    rw [rearming, if_pos rfl, if_pos (h.polled hpolled')]
    omega

end Alarm

section Step

variable {n : Network Q} {s₁ : HttpServer Q} {fd : Fd} {fds : Finset Fd}

/-- The steps that are left for the descriptors. -/
def due (fds : Finset Fd) (n : Network Q) : ℕ := ∑ fd ∈ fds, n.alarm n.server fd

/-- The steps that are left. -/
def work (fds : Finset Fd) (n : Network Q) : ℕ :=
  n.mainEffort n.server.main + n.taskEffort n.server.queue n.server.tasks + n.due fds

/-- The sockets allow the result of a call on this number. -/
def admits (n : Network Q) (fd : Fd) : Sys → Bool
  | .done => true
  | .read r => n.reads fd r
  | .write r => n.writes fd r

/-! ### The bytes after a step -/

theorem stock_le (htakes : Takes n (n.after s₁)) (hnext : s₁.next = n.server.next)
    (hbuffers : ∀ c, (s₁.conns c).readBuf.length ≤ (n.server.conns c).readBuf.length) :
    (n.after s₁).stock fds ≤ n.stock fds := by
  refine Nat.add_le_add (Finset.sum_le_sum fun fd _ => htakes.socketSupply_mono fd) ?_
  show ∑ c ∈ Finset.range s₁.next, 2 * (s₁.conns c).readBuf.length ≤ _
  rw [hnext]
  exact Finset.sum_le_sum fun c _ => Nat.mul_le_mul_left 2 (hbuffers c)

/-- Bytes move on a socket. -/
theorem stock_moves {c : ConnId} {k : ℕ} (htakes : Takes n (n.after s₁))
    (howner : n.server.owner fd = some c) (hconns : s₁.conns = n.server.conns)
    (hnext : s₁.next = n.server.next) (hfd : fd ∈ fds)
    (hless : 3 * ((n.after s₁).inbox c).length + (n.after s₁).room c + k ≤
      3 * (n.inbox c).length + n.room c) : (n.after s₁).stock fds + k ≤ n.stock fds := by
  have hsockets : ∑ fd ∈ fds, (n.after s₁).socketSupply fd + k ≤
      ∑ fd ∈ fds, n.socketSupply fd + 0 :=
    sum_add_le (fun fd' _ => htakes.socketSupply_mono fd') (htakes.socketSupply_le howner hless)
      (.inl hfd)
  have hbuffers : (n.after s₁).stock fds = ∑ fd ∈ fds, (n.after s₁).socketSupply fd +
      ∑ c ∈ Finset.range n.server.next, 2 * (n.server.conns c).readBuf.length := by
    rw [← hnext, ← hconns]
    rfl
  rw [hbuffers, stock]
  omega

/-- A section under the lock of a connection. -/
theorem stock_setConn {c : ConnId} {conn : Connection} {a b : ℕ}
    (htakes : Takes n (n.after (n.server.setConn c conn)))
    (hconn : 2 * conn.readBuf.length + a ≤ 2 * (n.server.conns c).readBuf.length + b)
    (hmade : c < n.server.next ∨ a ≤ b) :
    (n.after (n.server.setConn c conn)).stock fds + a ≤ n.stock fds + b := by
  have hsockets : ∑ fd ∈ fds, (n.after (n.server.setConn c conn)).socketSupply fd ≤
      ∑ fd ∈ fds, n.socketSupply fd := Finset.sum_le_sum fun fd _ => htakes.socketSupply_mono fd
  have hbuffers : ∑ c' ∈ Finset.range n.server.next,
      2 * (Function.update n.server.conns c conn c').readBuf.length + a ≤
        ∑ c' ∈ Finset.range n.server.next, 2 * (n.server.conns c').readBuf.length + b := by
    refine sum_add_le (i := c) (fun c' hne => ?_) ?_ (hmade.imp_left Finset.mem_range.2)
    · rw [Function.update_of_ne hne]
    · rwa [Function.update_self]
  have hstock : (n.after (n.server.setConn c conn)).stock fds =
      ∑ fd ∈ fds, (n.after (n.server.setConn c conn)).socketSupply fd +
        ∑ c' ∈ Finset.range n.server.next,
          2 * (Function.update n.server.conns c conn c').readBuf.length := rfl
  rw [hstock, stock]
  omega

/-- What is read is taken from the socket. -/
theorem stock_read {bytes : Bytes} {c : ConnId}
    (htakes : Takes n (n.after (n.server.readBytes fd bytes))) (howner : n.server.owner fd = some c)
    (hreads : bytes <+: n.inbox c) (hfd : fd ∈ fds) :
    (n.after (n.server.readBytes fd bytes)).stock fds + 3 * bytes.length ≤ n.stock fds := by
  refine stock_moves htakes howner rfl rfl hfd ?_
  have hreceived : (n.server.readBytes fd bytes).received c = n.server.received c ++ bytes :=
    HttpServer.updateRecord_self howner n.server.received (· ++ bytes)
  have hroom := htakes.room_le c
  have hle := hreads.length_le
  simp only [inbox, List.length_drop] at hle
  simp only [inbox, after, hreceived, List.length_drop, List.length_append] at hroom ⊢
  omega

/-- What is written takes the room. -/
theorem stock_wrote {bytes : Bytes} {c : ConnId}
    (htakes : Takes n (n.after (n.server.writeBytes fd bytes)))
    (howner : n.server.owner fd = some c) (hwrites : bytes.length ≤ n.room c) (hfd : fd ∈ fds) :
    (n.after (n.server.writeBytes fd bytes)).stock fds + bytes.length ≤ n.stock fds := by
  refine stock_moves htakes howner rfl rfl hfd ?_
  have hwritten : (n.server.writeBytes fd bytes).written c = n.server.written c ++ bytes :=
    HttpServer.updateRecord_self howner n.server.written (· ++ bytes)
  have hinbox := htakes.inbox_le c
  simp only [room] at hwrites
  simp only [room, after, hwritten, List.length_append] at hinbox ⊢
  omega

/-! ### The steps after a step -/

/-- No descriptor is armed. -/
theorem due_le (h : Settles n (n.after s₁))
    (hregs : ∀ fd, s₁.registration fd = n.server.registration fd ∨
      (s₁.registration fd).bind id = none) : (n.after s₁).due fds ≤ n.due fds := by
  refine Finset.sum_le_sum fun fd _ => ?_
  rcases hregs fd with hsame | hnone
  · exact alarm_same h hsame
  · exact (alarm_off hnone).trans_le (Nat.zero_le _)

/-- The registration of one descriptor changes. -/
theorem due_update {k : ℕ} (h : Settles n (n.after s₁)) {reg : Option (Option Interest)}
    (hreg : s₁.registration = Function.update n.server.registration fd reg)
    (halarm : (n.after s₁).alarm s₁ fd ≤ n.alarm n.server fd + k) :
    (n.after s₁).due fds ≤ n.due fds + k :=
  sum_add_le (a := 0) (fun fd' hne => alarm_same h (by rw [hreg, Function.update_of_ne hne]))
    halarm (.inr (Nat.zero_le _))

theorem due_armed (hready : ReadyArmed n) (h : Settles n (n.after s₁)) {interest : Interest}
    (hreg : s₁.registration = Function.update n.server.registration fd
      ((n.server.registration fd).map fun _ => some interest)) :
    (n.after s₁).due fds ≤ n.due fds + n.rearming fd interest := by
  refine due_update h hreg ?_
  cases hold : n.server.registration fd with
  | none =>
    rw [alarm_off (by rw [hreg, Function.update_self, hold]; rfl)]
    exact Nat.zero_le _
  | some armed => exact alarm_armed hready h (by rw [hreg, Function.update_self, hold]; rfl)

end Step

end Network

end MiniServer
