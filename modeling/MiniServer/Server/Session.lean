import MiniServer.Handler.Session
import MiniServer.Server.Single

/-!
# Steps of the session of a connection

The handlers work on the session of a connection (`session`) through a descriptor.
`Single.session_step`: a step of a task for its own connection keeps what is known of the session
(`Session.Runs`), by one lemma of `MiniServer.Handler.Session` for each program counter.
`session_other`: a step on another descriptor does not touch the session.
-/

namespace MiniServer

open Connection (framer)

namespace HttpServer

variable {Q : Type}

/-- The session of a connection. -/
def session (s : HttpServer Q) (c : ConnId) : Session :=
  ⟨s.conns c, s.received c, s.written c, s.ended c⟩

/-- An active task and an armed descriptor contradict each other. -/
theorem Single.not_armed {s : HttpServer Q} (hs : Single s) {t : Task}
    (ht : t ∈ s.queue ++ s.tasks) (hactive : t.pc.active = true) : s.armed t.fd = false := by
  have hunique := hs.unique t.fd
  have hone := worker_le ht hactive
  unfold tally at hunique
  cases harmed : s.armed t.fd with
  | false => rfl
  | true =>
    rw [harmed, Bool.toNat_true] at hunique
    omega

theorem armed_of_registration {s : HttpServer Q} {fd : Fd} {i : Interest}
    (h : s.registration fd = some (some i)) : s.armed fd = true := by
  rw [armed, h]
  rfl

/-! ### Sessions after a change of the state -/

theorem updateRecord_self {s : HttpServer Q} {fd : Fd} {c : ConnId} (h : s.owner fd = some c)
    {α : Type} (record : ConnId → α) (f : α → α) :
    s.updateRecord fd record f c = f (record c) := by
  obtain ⟨file, hfile, rfl⟩ := Option.map_eq_some_iff.1 h
  rw [updateRecord, hfile]
  exact Function.update_self _ _ _

theorem updateRecord_ne {s : HttpServer Q} {fd : Fd} {c : ConnId} (h : s.owner fd ≠ some c)
    {α : Type} (record : ConnId → α) (f : α → α) :
    s.updateRecord fd record f c = record c := by
  unfold updateRecord
  cases hfile : s.files fd with
  | none => rfl
  | some file =>
    refine Function.update_of_ne ?_ _ _
    rintro rfl
    exact h (by rw [owner, hfile]; rfl)

theorem session_setConn (s : HttpServer Q) (c : ConnId) (conn : Connection) :
    (s.setConn c conn).session c = { s.session c with conn } := by
  simp [session, setConn]

theorem session_readBytes {s : HttpServer Q} {fd : Fd} {c : ConnId} (h : s.owner fd = some c)
    (bytes : Bytes) : (s.readBytes fd bytes).session c =
      { s.session c with received := (s.session c).received ++ bytes } := by
  simp only [session, readBytes, updateRecord_self h]
  rfl

theorem session_readEnd {s : HttpServer Q} {fd : Fd} {c : ConnId} (h : s.owner fd = some c) :
    (s.readEnd fd).session c = { s.session c with ended := true } := by
  simp only [session, readEnd, updateRecord_self h]

theorem session_writeBytes {s : HttpServer Q} {fd : Fd} {c : ConnId} (h : s.owner fd = some c)
    (bytes : Bytes) : (s.writeBytes fd bytes).session c =
      { s.session c with written := (s.session c).written ++ bytes } := by
  simp only [session, writeBytes, updateRecord_self h]
  rfl

section Step

variable {reply : Bytes → Answer} {eof : Connection → Prop}
variable [PriorityQueue Q (TimerHeap.Node Fd ℕ) TimerHeap.later] {idle : ℕ}

/-- A step for another connection, on another descriptor, does not touch the session. -/
theorem session_other {s s₁ : HttpServer Q} {fd : Fd} {pc : Pc ConnId} {r : Sys}
    {pc' : Option (Pc ConnId)} (h : s.perform idle fd (pc.code reply) r = some (s₁, pc'))
    {c : ConnId} (hconn : pc.conn? ≠ some c) (howner : s.owner fd ≠ some c) :
    s₁.session c = s.session c := by
  have hconns := perform_conns h hconn
  generalize pc.code reply = a at h
  have hrecords : s₁.received c = s.received c ∧ s₁.written c = s.written c ∧
      s₁.ended c = s.ended c := by
    cases perform_cases h with
    | @readData _ bytes _ =>
      exact ⟨updateRecord_ne howner s.received (· ++ bytes), rfl, rfl⟩
    | readEnd => exact ⟨rfl, rfl, updateRecord_ne howner s.ended fun _ => true⟩
    | @wrote iov _ n _ _ =>
      exact ⟨rfl, updateRecord_ne howner s.written (· ++ iov.flatten.take n), rfl⟩
    | _ => exact ⟨rfl, rfl, rfl⟩
  obtain ⟨hreceived, hwritten, hended⟩ := hrecords
  rw [session, hconns, hreceived, hwritten, hended, session]

/-- A descriptor is armed at the end of a handler only, when its session awaits an event. -/
theorem session_arms {s s₁ : HttpServer Q} {fd : Fd} {pc : Pc ConnId} {c : ConnId}
    (hnot : s.armed fd = false) (hconn : ∀ c', pc.conn? = some c' → c' = c)
    (hopened : (s.conns c).closed = false) {r : Sys} {pc' : Option (Pc ConnId)}
    (h : s.perform idle fd (pc.code reply) r = some (s₁, pc'))
    (hruns : Session.Runs reply eof (s.session c) pc) {i : Interest}
    (hi : s₁.registration fd = some (some i)) : Session.Awaits reply (s₁.session c) i := by
  have hidle : s₁.registration ≠ s.registration := by
    intro hreg
    rw [hreg] at hi
    rw [armed_of_registration hi] at hnot
    cases hnot
  -- where the handler arms the descriptor, it is for the event that the session awaits
  have hrearm : ∀ {i₀ : Interest}, s₁.registration = Function.update s.registration fd
      ((s.registration fd).map fun _ => some i₀) → i₀ = i := by
    intro i₀ hreg
    rw [hreg, Function.update_self, Option.map_eq_some_iff] at hi
    obtain ⟨_, -, heq⟩ := hi
    exact Option.some.inj heq
  cases handler_cases h with
  | @extractNone c' hnone =>
    obtain rfl := hconn c' rfl
    obtain rfl := hrearm (registration_epollMod (s.setConn c' _) fd _)
    have hnone := hnone.resolve_left (by rw [hopened]; exact Bool.false_ne_true)
    show Session.Awaits reply ((s.setConn c' _).session c') .input
    rw [session_setConn]
    exact (hruns.extractNone hnone).withFlags
  | rearm =>
    obtain rfl := hrearm (registration_epollMod s fd _)
    exact hruns
  | rearmLog =>
    obtain rfl := hrearm (registration_epollMod s fd _)
    exact hruns
  | readData _ => exact absurd (registration_moveBytes s fd) hidle
  | wrote _ _ => exact absurd (registration_moveBytes s fd) hidle
  | readRefresh => exact absurd (registration_refreshTimer idle s fd) hidle
  | writeRefreshMore => exact absurd (registration_refreshTimer idle s fd) hidle
  | writeRefresh => exact absurd (registration_refreshTimer idle s fd) hidle
  | del =>
    rw [registration_epollDel, Function.update_self] at hi
    cases hi
  | close =>
    rw [registration_closeFile, Function.update_self] at hi
    cases hi
  | _ => exact absurd rfl hidle

/-- A task goes on with what is known at its next program counter. -/
theorem session_goesOn {s s₁ : HttpServer Q} {fd : Fd} {pc : Pc ConnId} {c : ConnId}
    (hactive : pc.active = true) (hpast : pc.pastErase = false) (howner : s.owner fd = some c)
    (hconn : ∀ c', pc.conn? = some c' → c' = c) (hopened : (s.conns c).closed = false)
    {r : Sys} {pc' : Option (Pc ConnId)} (h : s.perform idle fd (pc.code reply) r = some (s₁, pc'))
    (hreply : ∀ raw, (reply raw).bytes ≠ []) (hend : r = .read .eof → eof (s.conns c))
    (herror : r ≠ .read .error ∧ r ≠ .write .error)
    (hruns : Session.Runs reply eof (s.session c) pc) :
    ∀ q ∈ pc', Session.Runs reply eof (s₁.session c) q := by
  have hopen : ∀ {p : Prop}, (s.conns c).closed = true ∨ p → p :=
    fun hor => hor.resolve_left (by rw [hopened]; exact Bool.false_ne_true)
  intro q hq
  cases handler_cases h with
  | readFound _ =>
    cases hq
    exact hruns.readFound
  | @readData c' bytes _ =>
    obtain rfl := hconn c' rfl
    cases hq
    rw [session_readBytes howner]
    exact hruns.readData bytes
  | @readEnd c' =>
    obtain rfl := hconn c' rfl
    cases hq
    rw [session_readEnd howner]
    exact hruns.readEnd (hend rfl)
  | readAgain =>
    cases hq
    exact hruns
  | readError => exact absurd rfl herror.1
  | @append c' bytes =>
    obtain rfl := hconn c' rfl
    cases hq
    rw [session_setConn, hopened]
    exact hruns.append
  | readRefresh =>
    cases hq
    exact hruns
  | writeFound _ =>
    cases hq
    exact hruns.writeFound
  | @gather c' _ hmore =>
    obtain rfl := hconn c' rfl
    cases hq
    exact hruns.gather hmore
  | @gatherEnd c' hempty =>
    obtain rfl := hconn c' rfl
    cases hq
    exact hruns.gatherEnd (hopen hempty)
  | @wrote c' iov n _ hn =>
    obtain rfl := hconn c' rfl
    cases hq
    rw [session_writeBytes howner]
    exact hruns.wrote hn
  | writeAgain =>
    cases hq
    exact hruns.writeAgain
  | writeError => exact absurd rfl herror.2
  | @consume c' n =>
    obtain rfl := hconn c' rfl
    cases hq
    rw [session_setConn]
    exact hruns.consume
  | @clearClose c' hclose =>
    obtain rfl := hconn c' rfl
    cases hq
    rw [session_setConn]
    exact hruns.clearClose hclose _
  | @clear c' hclose =>
    obtain rfl := hconn c' rfl
    cases hq
    rw [session_setConn]
    exact hruns.clear hclose
  | writeRefreshMore =>
    cases hq
    exact hruns.writeRefreshMore
  | writeRefresh =>
    cases hq
    exact hruns.writeRefresh
  | processFound _ =>
    cases hq
    exact hruns
  | extractNone _ => cases hq
  | @extract c' raw conn _ hex =>
    obtain rfl := hconn c' rfl
    cases hq
    rw [session_setConn]
    exact hruns.extract hex
  | respondClosed _ => cases hq
  | @respond c' raw _ =>
    obtain rfl := hconn c' rfl
    cases hq
    rw [session_setConn]
    exact hruns.respond (hreply raw)
  | @finish c' i record =>
    obtain rfl := hconn c' rfl
    cases hq
    rw [session_setConn, hopened]
    exact hruns.withFlags
  | rearm => cases hq
  | rearmLog =>
    cases hq
    trivial
  | closeErase _ =>
    cases hq
    exact hruns
  | access => cases hactive
  | readGone _ => cases hq
  | writeGone _ => cases hq
  | processGone _ => cases hq
  | closeGone _ => cases hq
  | markClosed => cases hpast
  | del => cases hpast
  | close => cases hpast

/-- **A step of a task keeps what is known of the session.** -/
theorem Single.session_step {s s₁ : HttpServer Q} (hs : Single s) {t : Task}
    (ht : t ∈ s.queue ++ s.tasks) (hactive : t.pc.active = true)
    (hc : s.connections.lookup t.fd = some t.owner) {r : Sys} {pc' : Option (Pc ConnId)}
    (h : s.perform idle t.fd (t.pc.code reply) r = some (s₁, pc'))
    (hreply : ∀ raw, (reply raw).bytes ≠ [])
    (hend : r = .read .eof → eof (s.conns t.owner))
    (herror : r ≠ .read .error ∧ r ≠ .write .error)
    (hruns : Session.Runs reply eof (s.session t.owner) t.pc) :
    (∀ q ∈ pc', Session.Runs reply eof (s₁.session t.owner) q) ∧
      ∀ i, s₁.registration t.fd = some (some i) →
        Session.Awaits reply (s₁.session t.owner) i := by
  have howned := hs.owned.task t ht
  have hopened := hs.opened _ _ hc
  have hpast : t.pc.pastErase = false := by
    rw [Bool.eq_false_iff]
    intro hpast
    rw [howned.gone hpast] at hc
    cases hc
  refine ⟨session_goesOn hactive hpast (hs.owned.table _ _ hc) howned.conn hopened h hreply hend
    herror hruns, fun i hi => ?_⟩
  exact session_arms (hs.not_armed ht hactive) howned.conn hopened h hruns hi

end Step

end HttpServer

end MiniServer
