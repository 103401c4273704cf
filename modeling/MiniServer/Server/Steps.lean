import MiniServer.Server.Basic

/-!
# What a step of the server does

Inversion lemmas: `mainStep_cases` names the steps of the main thread, `handler_cases` those of the
handlers by program counter, `taskStep_cases` splits the pool around the task that steps, and
`perform_eq` says which parts of the state an action of a handler leaves alone.  Invariants are
proved from these and never unfold `mainStep` or `perform`.
-/

namespace MiniServer

/-- The event that a socket armed for `i` delivers when it is ready. -/
def Interest.kind : Interest → Kind
  | .input => .input
  | .output => .output

namespace HttpServer

variable {Q : Type}

/-! ### The kernel -/

/-- The connection that the open descriptor `fd` was accepted for. -/
def owner (s : HttpServer Q) (fd : Fd) : Option ConnId := (s.files fd).map File.owner

theorem owner_updateFile (s : HttpServer Q) (fd : Fd) {g : File → File}
    (hg : ∀ f, (g f).owner = f.owner) : (s.updateFile fd g).owner = s.owner := by
  have hcomp := Function.comp_update (Option.map File.owner) s.files fd ((s.files fd).map g)
  rw [Option.map_map, show File.owner ∘ g = File.owner from funext hg] at hcomp
  exact hcomp.trans (Function.update_eq_self fd s.owner)

/-- A number is given to a new file. -/
theorem owner_update (s : HttpServer Q) (fd : Fd) (f : File) {main : Main}
    {latest : Fd → Option ConnId} :
    owner { s with files := Function.update s.files fd (some f), latest, main } =
      Function.update s.owner fd (some f.owner) :=
  Function.comp_update (Option.map File.owner) s.files fd (some f)

theorem owner_closeFile (s : HttpServer Q) (fd : Fd) :
    (s.closeFile fd).owner = Function.update s.owner fd none :=
  Function.comp_update (Option.map File.owner) s.files fd none

theorem deliver_eq {s s' : HttpServer Q} {ev : Event} (h : s.deliver ev = some s') :
    ∃ files, s' = { s with files } := by
  unfold deliver at h
  split at h
  · cases h; exact ⟨s.files, rfl⟩
  · split at h
    · split_ifs at h
      cases h; exact ⟨_, rfl⟩
    · cases h

theorem deliver_owner {s s' : HttpServer Q} {ev : Event} (h : s.deliver ev = some s') :
    s'.owner = s.owner := by
  unfold deliver at h
  split at h
  · cases h; rfl
  · split at h
    · split_ifs at h
      cases h
      exact owner_updateFile s _ fun _ => rfl
    · cases h

theorem deliverAll_owner {s s' : HttpServer Q} {evs : List Event}
    (h : s.deliverAll evs = some s') : s'.owner = s.owner := by
  induction evs generalizing s with
  | nil => cases h; rfl
  | cons ev evs ih =>
    obtain ⟨s₁, hev, h⟩ := Option.bind_eq_some_iff.1 h
    rw [ih h, deliver_owner hev]

theorem deliverAll_eq {s s' : HttpServer Q} {evs : List Event} (h : s.deliverAll evs = some s') :
    ∃ files, s' = { s with files } := by
  induction evs generalizing s with
  | nil => cases h; exact ⟨_, rfl⟩
  | cons ev evs ih =>
    obtain ⟨s₁, hev, h⟩ := Option.bind_eq_some_iff.1 h
    obtain ⟨files, rfl⟩ := deliver_eq hev
    obtain ⟨files, rfl⟩ := ih h
    exact ⟨files, rfl⟩

/-- A section that changes nothing. -/
theorem setConn_self (s : HttpServer Q) (c : ConnId) : s.setConn c (s.conns c) = s := by
  rw [setConn, Function.update_eq_self]

section Step

variable [PriorityQueue Q (TimerHeap.Node Fd ℕ) TimerHeap.later]
variable {reply : Bytes → Answer} {idle : ℕ}

/-! ### Actions of the handlers -/

variable (idle) in
/-- The steps of a thread that works on `fd`. -/
inductive Performed (s : HttpServer Q) (fd : Fd) :
    Action ConnId → Sys → HttpServer Q → Option (Pc ConnId) → Prop
  | getConnection {next : Option ConnId → Option (Pc ConnId)} :
      Performed s fd (.getConnection next) .done s (next (s.connections.lookup fd))
  | readData {next : ReadResult → Pc ConnId} {bytes : Bytes} : bytes ≠ [] →
      Performed s fd (.read next) (.read (.data bytes)) (s.readBytes fd bytes)
        (some (next (.data bytes)))
  | readEnd {next : ReadResult → Pc ConnId} :
      Performed s fd (.read next) (.read .eof) (s.readEnd fd) (some (next .eof))
  | readNone {next : ReadResult → Pc ConnId} {r : ReadResult} : r = .again ∨ r = .error →
      Performed s fd (.read next) (.read r) s (some (next r))
  | wrote {iov : List Bytes} {next : WriteResult → Pc ConnId} {n : ℕ} : 0 < n →
      n ≤ iov.flatten.length → Performed s fd (.writev iov next) (.write (.wrote n))
        (s.writeBytes fd (iov.flatten.take n)) (some (next (.wrote n)))
  | writeNone {iov : List Bytes} {next : WriteResult → Pc ConnId} {r : WriteResult} :
      r = .again ∨ r = .error →
      Performed s fd (.writev iov next) (.write r) s (some (next r))
  | locked {c : ConnId} {body : Connection → Section ConnId} :
      (body (s.conns c)).arm = none → Performed s fd (.locked c body) .done
        (s.setConn c (body (s.conns c)).conn) (body (s.conns c)).next
  | lockedArm {c : ConnId} {body : Connection → Section ConnId} {interest : Interest} :
      (body (s.conns c)).arm = some interest → Performed s fd (.locked c body) .done
        ((s.setConn c (body (s.conns c)).conn).epollMod fd interest) (body (s.conns c)).next
  | refresh {next : Pc ConnId} :
      Performed s fd (.refresh next) .done (s.refreshTimer idle fd) (some next)
  | mod {interest : Interest} {next : Option (Pc ConnId)} :
      Performed s fd (.mod interest next) .done (s.epollMod fd interest) next
  | log {c : ConnId} {record : Answer} : Performed s fd (.log c record) .done s none
  | eraseNone {next : Option ConnId → Option (Pc ConnId)} : s.connections.lookup fd = none →
      Performed s fd (.erase next) .done s (next none)
  | erase {next : Option ConnId → Option (Pc ConnId)} {c : ConnId} :
      s.connections.lookup fd = some c → Performed s fd (.erase next) .done
        { s with connections := s.connections.erase fd, timers := s.timers.remove fd }
        (next (some c))
  | del {next : Pc ConnId} : Performed s fd (.del next) .done (s.epollDel fd) (some next)
  | close : Performed s fd .close .done (s.closeFile fd) none

theorem perform_cases {s s' : HttpServer Q} {fd : Fd} {a : Action ConnId} {r : Sys}
    {pc : Option (Pc ConnId)} (h : s.perform idle fd a r = some (s', pc)) :
    Performed idle s fd a r s' pc := by
  unfold perform at h
  split at h
  · cases h; exact .getConnection
  · split_ifs at h with hr
    split at h <;> cases h
    · simp only [canRead, Bool.and_eq_true, decide_eq_true_eq] at hr
      exact .readData hr.2
    · exact .readEnd
    · rename_i r _ hdata hend
      refine .readNone ?_
      cases r with
      | data bytes => exact absurd rfl (hdata bytes)
      | eof => exact absurd rfl hend
      | again => exact .inl rfl
      | error => exact .inr rfl
  · split_ifs at h with hr
    split at h <;> cases h
    · simp only [canWrite, Bool.and_eq_true, decide_eq_true_eq] at hr
      exact .wrote hr.1.2 hr.2
    · rename_i r _ hwrote
      refine .writeNone ?_
      cases r with
      | wrote n => exact absurd rfl (hwrote n)
      | again => exact .inl rfl
      | error => exact .inr rfl
  · dsimp only at h
    split at h <;> cases h
    · exact .locked ‹_›
    · exact .lockedArm ‹_›
  · cases h; exact .refresh
  · cases h; exact .mod
  · cases h; exact .log
  · split at h <;> cases h
    · exact .eraseNone ‹_›
    · exact .erase ‹_›
  · cases h; exact .del
  · cases h; exact .close
  · cases h

variable (reply idle) in
/-- The steps of the handlers, by program counter and result. -/
inductive HandlerCase (s : HttpServer Q) (fd : Fd) :
    Pc ConnId → Sys → HttpServer Q → Option (Pc ConnId) → Prop
  | readFound {c : ConnId} : s.connections.lookup fd = some c →
      HandlerCase s fd .readBegin .done s (some (.read c))
  | readGone : s.connections.lookup fd = none → HandlerCase s fd .readBegin .done s none
  | readData {c : ConnId} {bytes : Bytes} : bytes ≠ [] →
      HandlerCase s fd (.read c) (.read (.data bytes)) (s.readBytes fd bytes)
        (some (.append c bytes))
  | readEnd {c : ConnId} :
      HandlerCase s fd (.read c) (.read .eof) (s.readEnd fd) (some .closeBegin)
  | readAgain {c : ConnId} : HandlerCase s fd (.read c) (.read .again) s (some .readRefresh)
  | readError {c : ConnId} : HandlerCase s fd (.read c) (.read .error) s (some .closeBegin)
  | append {c : ConnId} {bytes : Bytes} : HandlerCase s fd (.append c bytes) .done
      (s.setConn c (if (s.conns c).closed then s.conns c else (s.conns c).appendReadData bytes))
      (some (.read c))
  | readRefresh :
      HandlerCase s fd .readRefresh .done (s.refreshTimer idle fd) (some .processBegin)
  | writeFound {c : ConnId} : s.connections.lookup fd = some c →
      HandlerCase s fd .writeBegin .done s (some (.gather c))
  | writeGone : s.connections.lookup fd = none → HandlerCase s fd .writeBegin .done s none
  | gather {c : ConnId} : (s.conns c).closed = false → (s.conns c).hasWriteData = true →
      HandlerCase s fd (.gather c) .done s (some (.writev c (s.conns c).iovecs))
  | gatherEnd {c : ConnId} : (s.conns c).closed = true ∨ (s.conns c).hasWriteData = false →
      HandlerCase s fd (.gather c) .done s (some (.clear c))
  | wrote {c : ConnId} {iov : List Bytes} {n : ℕ} : 0 < n → n ≤ iov.flatten.length →
      HandlerCase s fd (.writev c iov) (.write (.wrote n)) (s.writeBytes fd (iov.flatten.take n))
        (some (.consume c n))
  | writeAgain {c : ConnId} {iov : List Bytes} :
      HandlerCase s fd (.writev c iov) (.write .again) s (some (.finish c .output none))
  | writeError {c : ConnId} {iov : List Bytes} :
      HandlerCase s fd (.writev c iov) (.write .error) s (some .closeBegin)
  | consume {c : ConnId} {n : ℕ} : HandlerCase s fd (.consume c n) .done
      (s.setConn c ((s.conns c).consumeWriteData n)) (some (.gather c))
  | clearClose {c : ConnId} : (s.conns c).closeAfterWrite = true → HandlerCase s fd (.clear c) .done
      (s.setConn c ((s.conns c).clearWriteData.setWriteReady false)) (some .closeBegin)
  | clear {c : ConnId} : (s.conns c).closeAfterWrite = false → HandlerCase s fd (.clear c) .done
      (s.setConn c ((s.conns c).clearWriteData.setWriteReady false))
      (some (.writeRefresh c (s.conns c).hasPendingRead))
  | writeRefreshMore {c : ConnId} : HandlerCase s fd (.writeRefresh c true) .done
      (s.refreshTimer idle fd) (some .processBegin)
  | writeRefresh {c : ConnId} : HandlerCase s fd (.writeRefresh c false) .done
      (s.refreshTimer idle fd) (some (.finish c .input none))
  | processFound {c : ConnId} : s.connections.lookup fd = some c →
      HandlerCase s fd .processBegin .done s (some (.extract c))
  | processGone : s.connections.lookup fd = none → HandlerCase s fd .processBegin .done s none
  | extractNone {c : ConnId} :
      (s.conns c).closed = true ∨ (s.conns c).extractOneRequest = none →
      HandlerCase s fd (.extract c) .done
        ((s.setConn c ((s.conns c).setProcessing false)).epollMod fd .input) none
  | extract {c : ConnId} {raw : Bytes} {conn : Connection} : (s.conns c).closed = false →
      (s.conns c).extractOneRequest = some (raw, conn) →
      HandlerCase s fd (.extract c) .done (s.setConn c conn) (some (.respond c raw))
  | respondClosed {c : ConnId} {raw : Bytes} : (s.conns c).closed = true →
      HandlerCase s fd (.respond c raw) .done s none
  | respond {c : ConnId} {raw : Bytes} : (s.conns c).closed = false →
      HandlerCase s fd (.respond c raw) .done (s.setConn c ((reply raw).queue (s.conns c)))
        (some (.finish c .output (some (reply raw))))
  | finish {c : ConnId} {interest : Interest} {record : Option Answer} :
      HandlerCase s fd (.finish c interest record) .done
        (s.setConn c (if (s.conns c).closed then s.conns c else (s.conns c).setProcessing false))
        (some (.rearm c interest record))
  | rearm {c : ConnId} {interest : Interest} :
      HandlerCase s fd (.rearm c interest none) .done (s.epollMod fd interest) none
  | rearmLog {c : ConnId} {interest : Interest} {record : Answer} :
      HandlerCase s fd (.rearm c interest (some record)) .done (s.epollMod fd interest)
        (some (.access c record))
  | access {c : ConnId} {record : Answer} : HandlerCase s fd (.access c record) .done s none
  | closeGone : s.connections.lookup fd = none → HandlerCase s fd .closeBegin .done s none
  | closeErase {c : ConnId} : s.connections.lookup fd = some c →
      HandlerCase s fd .closeBegin .done
        { s with connections := s.connections.erase fd, timers := s.timers.remove fd }
        (some (.markClosed c))
  | markClosed {c : ConnId} : HandlerCase s fd (.markClosed c) .done
      (s.setConn c (s.conns c).markClosed) (some .del)
  | del : HandlerCase s fd .del .done (s.epollDel fd) (some .close)
  | close : HandlerCase s fd .close .done (s.closeFile fd) none

/-- **What a step of a handler does.** -/
theorem handler_cases {s s' : HttpServer Q} {fd : Fd} {pc : Pc ConnId} {r : Sys}
    {pc' : Option (Pc ConnId)} (h : s.perform idle fd (pc.code reply) r = some (s', pc')) :
    HandlerCase reply idle s fd pc r s' pc' := by
  have hp := perform_cases h
  cases pc with
  | readBegin =>
    cases hp
    cases hc : s.connections.lookup fd with
    | none => exact .readGone hc
    | some c => exact .readFound hc
  | read c =>
    cases hp with
    | readData hbytes => exact .readData hbytes
    | readEnd => exact .readEnd
    | readNone hr => rcases hr with rfl | rfl; exacts [.readAgain, .readError]
  | append c bytes =>
    cases hp with
    | locked _ => exact .append
    | lockedArm harm => cases harm
  | readRefresh => cases hp; exact .readRefresh
  | writeBegin =>
    cases hp
    cases hc : s.connections.lookup fd with
    | none => exact .writeGone hc
    | some c => exact .writeFound hc
  | gather c =>
    cases hp with
    | locked _ =>
      unfold Pc.gatherBody
      split_ifs with hend <;> rw [setConn_self]
      · rw [Bool.or_eq_true, Bool.not_eq_true'] at hend
        exact .gatherEnd hend
      · rw [Bool.or_eq_true, Bool.not_eq_true', not_or, Bool.not_eq_true, Bool.not_eq_false] at hend
        exact .gather hend.1 hend.2
    | lockedArm harm =>
      unfold Pc.gatherBody at harm
      split_ifs at harm
  | writev c iov =>
    cases hp with
    | wrote hpos hle => exact .wrote hpos hle
    | writeNone hr => rcases hr with rfl | rfl; exacts [.writeAgain, .writeError]
  | consume c n =>
    cases hp with
    | locked _ => exact .consume
    | lockedArm harm => cases harm
  | clear c =>
    cases hp with
    | locked _ =>
      unfold Pc.clearBody
      dsimp only
      split_ifs with hclose
      · exact .clearClose hclose
      · exact .clear (by simpa using hclose)
    | lockedArm harm =>
      unfold Pc.clearBody at harm
      dsimp only at harm
      split_ifs at harm
  | writeRefresh c pending => cases hp; cases pending; exacts [.writeRefresh, .writeRefreshMore]
  | processBegin =>
    cases hp
    cases hc : s.connections.lookup fd with
    | none => exact .processGone hc
    | some c => exact .processFound hc
  | extract c =>
    rcases Pc.extractBody_cases c (s.conns c) with
      ⟨hnone, hbody⟩ | ⟨raw, conn, hopen, hex, hbody⟩
    · cases hp with
      | locked harm => rw [hbody] at harm; cases harm
      | lockedArm harm => rw [hbody] at harm ⊢; cases harm; exact .extractNone hnone
    · cases hp with
      | locked _ => rw [hbody]; exact .extract hopen hex
      | lockedArm harm => rw [hbody] at harm; cases harm
  | respond c raw =>
    cases hp with
    | locked _ =>
      unfold Pc.respondBody
      split_ifs with hclosed
      · rw [setConn_self]
        exact .respondClosed hclosed
      · exact .respond (by simpa using hclosed)
    | lockedArm harm =>
      unfold Pc.respondBody at harm
      split_ifs at harm
  | finish c interest record =>
    cases hp with
    | locked _ => exact .finish
    | lockedArm harm => cases harm
  | rearm c interest record => cases hp; cases record; exacts [.rearm, .rearmLog]
  | access c record => cases hp; exact .access
  | closeBegin =>
    cases hp with
    | eraseNone hc => exact .closeGone hc
    | erase hc => exact .closeErase hc
  | markClosed c =>
    cases hp with
    | locked _ => exact .markClosed
    | lockedArm harm => cases harm
  | del => cases hp; exact .del
  | close => cases hp; exact .close

/-- An action changes the tables, the objects, the open files and the records only. -/
theorem perform_eq {s s' : HttpServer Q} {fd : Fd} {a : Action ConnId} {r : Sys}
    {pc : Option (Pc ConnId)} (h : s.perform idle fd a r = some (s', pc)) :
    s' = { s with
      connections := s'.connections, timers := s'.timers, conns := s'.conns, files := s'.files
      received := s'.received, written := s'.written, ended := s'.ended } := by
  cases perform_cases h <;> rfl

/-- What an action does to the two tables. -/
inductive Tables (idle : ℕ) (s : HttpServer Q) (fd : Fd) (s' : HttpServer Q) : Prop
  | same : s'.connections = s.connections → s'.timers = s.timers → Tables idle s fd s'
  | refresh : s'.connections = s.connections →
      s'.timers = s.timers.addOrUpdate fd (s.now + idle) → Tables idle s fd s'
  | erase : s'.connections = s.connections.erase fd → s'.timers = s.timers.remove fd →
      Tables idle s fd s'

theorem perform_tables {s s' : HttpServer Q} {fd : Fd} {a : Action ConnId} {r : Sys}
    {pc : Option (Pc ConnId)} (h : s.perform idle fd a r = some (s', pc)) :
    Tables idle s fd s' := by
  cases perform_cases h with
  | refresh => exact .refresh rfl rfl
  | erase _ => exact .erase rfl rfl
  | _ => exact .same rfl rfl

/-- What a step at `pc` on the descriptor `fd` may do to the rest of the server. -/
structure Effect (s s' : HttpServer Q) (fd : Fd) (pc : Pc ConnId) : Prop where
  owner : s'.owner = if pc = .close then Function.update s.owner fd none else s.owner
  table : ∀ fd' c, s'.connections.lookup fd' = some c → s.connections.lookup fd' = some c
  closed : ∀ c, (s.conns c).closed = true → (s'.conns c).closed = true

theorem perform_owner {s s' : HttpServer Q} {fd : Fd} {a : Action ConnId} {r : Sys}
    {pc : Option (Pc ConnId)} (h : s.perform idle fd a r = some (s', pc)) :
    (a ≠ .close ∧ s'.owner = s.owner) ∨
      (a = .close ∧ s'.owner = Function.update s.owner fd none) := by
  cases perform_cases h with
  | readData _ => exact .inl ⟨by simp, owner_updateFile s fd fun _ => rfl⟩
  | wrote _ _ => exact .inl ⟨by simp, owner_updateFile s fd fun _ => rfl⟩
  | lockedArm _ => exact .inl ⟨by simp, owner_updateFile (s.setConn _ _) fd fun _ => rfl⟩
  | refresh => exact .inl ⟨by simp, owner_updateFile { s with timers := _ } fd fun _ => rfl⟩
  | mod => exact .inl ⟨by simp, owner_updateFile s fd fun _ => rfl⟩
  | del => exact .inl ⟨by simp, owner_updateFile s fd fun _ => rfl⟩
  | close => exact .inr ⟨rfl, owner_closeFile s fd⟩
  | _ => exact .inl ⟨by simp, rfl⟩

/-- An object changes in a locked section of its own only. -/
theorem perform_conns_cases {s s' : HttpServer Q} {fd : Fd} {a : Action ConnId} {r : Sys}
    {pc' : Option (Pc ConnId)} (h : s.perform idle fd a r = some (s', pc')) (c : ConnId) :
    s'.conns c = s.conns c ∨
      ∃ body, a = .locked c body ∧ s'.conns c = (body (s.conns c)).conn := by
  have hupdate : ∀ c' body,
      Function.update s.conns c' (body (s.conns c')).conn c = s.conns c ∨
        ∃ body', Action.locked c' body = .locked c body' ∧
          Function.update s.conns c' (body (s.conns c')).conn c = (body' (s.conns c)).conn := by
    intro c' body
    by_cases hc : c = c'
    · subst hc
      exact .inr ⟨body, rfl, Function.update_self _ _ _⟩
    · exact .inl (Function.update_of_ne hc _ _)
  cases perform_cases h with
  | locked _ => exact hupdate _ _
  | lockedArm _ => exact hupdate _ _
  | _ => exact .inl rfl

theorem perform_closed {s s' : HttpServer Q} {fd : Fd} {pc : Pc ConnId} {r : Sys}
    {pc' : Option (Pc ConnId)} (h : s.perform idle fd (pc.code reply) r = some (s', pc'))
    {c : ConnId} (hclosed : (s.conns c).closed = true) : (s'.conns c).closed = true := by
  rcases perform_conns_cases h c with heq | ⟨body, hcode, heq⟩
  · rwa [heq]
  · rw [heq]
    exact Pc.closed_of_locked hcode hclosed

theorem perform_effect {s s' : HttpServer Q} {fd : Fd} {pc : Pc ConnId} {r : Sys}
    {pc' : Option (Pc ConnId)} (h : s.perform idle fd (pc.code reply) r = some (s', pc')) :
    Effect s s' fd pc := by
  refine ⟨?_, fun fd' c hc => ?_, fun c => perform_closed h⟩
  · rcases perform_owner h with ⟨hcode, howner⟩ | ⟨hcode, howner⟩
    · rw [howner, if_neg (by rintro rfl; exact hcode rfl)]
    · rw [howner, if_pos (by cases pc <;> cases hcode; rfl)]
  · cases perform_tables h with
    | same hconn _ => rwa [hconn] at hc
    | refresh hconn _ => rwa [hconn] at hc
    | erase hconn _ =>
      rw [hconn] at hc
      by_cases hfd : fd' = fd
      · subst hfd
        rw [Finmap.lookup_erase] at hc
        cases hc
      · rwa [Finmap.lookup_erase_ne hfd] at hc

/-- `closeConnection` leads past the section that erases the entry and never back to it. -/
theorem perform_close {s s' : HttpServer Q} {fd : Fd} {pc : Pc ConnId} {r : Sys}
    {pc' : Option (Pc ConnId)} (hpc : pc = .closeBegin ∨ pc.pastErase = true)
    (h : s.perform idle fd (pc.code reply) r = some (s', pc')) :
    (∀ q ∈ pc', q.pastErase = true) ∧ (pc = .closeBegin → s'.connections.lookup fd = none) := by
  rcases hpc with rfl | hpc
  · cases handler_cases h with
    | closeGone hc => exact ⟨by simp, fun _ => hc⟩
    | closeErase _ => exact ⟨by simp [Pc.pastErase], fun _ => Finmap.lookup_erase _ _⟩
  · refine ⟨?_, by rintro rfl; cases hpc⟩
    cases handler_cases h with
    | markClosed => simp [Pc.pastErase]
    | del => simp [Pc.pastErase]
    | close => simp
    | _ => cases hpc

/-- Only `closeConnection` erases an entry. -/
theorem perform_connections {s s' : HttpServer Q} {fd : Fd} {pc : Pc ConnId} {r : Sys}
    {pc' : Option (Pc ConnId)} (h : s.perform idle fd (pc.code reply) r = some (s', pc'))
    (hpc : pc ≠ .closeBegin) : s'.connections = s.connections := by
  cases handler_cases h with
  | closeErase _ => exact absurd rfl hpc
  | _ => rfl

/-- A task that has passed its re-arm only logs. -/
theorem perform_inactive {s s' : HttpServer Q} {fd : Fd} {pc : Pc ConnId} {r : Sys}
    {pc' : Option (Pc ConnId)} (h : s.perform idle fd (pc.code reply) r = some (s', pc'))
    (hpc : pc.active = false) : s' = s ∧ pc' = none := by
  cases handler_cases h with
  | access => exact ⟨rfl, rfl⟩
  | _ => cases hpc

variable (reply idle) in
/-- Every action has a result. -/
theorem perform_enabled (s : HttpServer Q) (fd : Fd) (pc : Pc ConnId) :
    ∃ r s' pc', s.perform idle fd (pc.code reply) r = some (s', pc') := by
  cases pc with
  | read c => exact ⟨.read .error, _, _, rfl⟩
  | writev c iov => exact ⟨.write .error, _, _, rfl⟩
  | closeBegin =>
    refine ⟨.done, ?_⟩
    simp only [Pc.code, perform]
    cases s.connections.lookup fd <;> exact ⟨_, _, rfl⟩
  | _ => exact ⟨.done, _, _, rfl⟩

/-- Without bytes the handlers come nearer to their end. -/
theorem perform_rank {s s' : HttpServer Q} {fd : Fd} {pc q : Pc ConnId} {r : Sys}
    (h : s.perform idle fd (pc.code reply) r = some (s', some q)) :
    q.rank < pc.rank ∨ r.movesBytes = true := by
  cases handler_cases h <;> simp [Pc.rank, Sys.movesBytes]

/-- A step of a worker: one task of the pool performs its action. -/
theorem taskStep_cases {s s' : HttpServer Q} {i : ℕ} {r : Sys}
    (h : s.step reply idle (.task i r) = some s') :
    ∃ l₁ t l₂ s₁ pc, s.tasks = l₁ ++ t :: l₂ ∧ s.tasks[i]? = some t ∧
      s.perform idle t.fd (t.pc.code reply) r = some (s₁, pc) ∧
      s' = { s₁ with tasks := l₁ ++ (pc.map fun pc => { t with pc }).toList ++ l₂ } := by
  obtain ⟨⟨s₁, tasks⟩, hthread, rfl⟩ := Option.map_eq_some_iff.1 h
  obtain ⟨l₁, t, l₂, t', htasks, hi, hstep, rfl⟩ := stepThread_eq_some hthread
  obtain ⟨⟨s₂, pc⟩, hperform, heq⟩ := Option.map_eq_some_iff.1 hstep
  rw [Prod.mk.injEq] at heq
  obtain ⟨rfl, rfl⟩ := heq
  exact ⟨l₁, t, l₂, s₂, pc, htasks, hi, hperform, rfl⟩

/-- A task after a step is the one that stepped, at its next program counter, or another one. -/
theorem mem_taskStep {queue l₁ l₂ : List Task} {t t' : Task} {pc : Option (Pc ConnId)}
    (h : t' ∈ queue ++ (l₁ ++ (pc.map fun pc => { t with pc }).toList ++ l₂)) :
    (∃ q ∈ pc, t' = { t with pc := q }) ∨ t' ∈ queue ++ (l₁ ++ l₂) := by
  rcases mem_thread h with h | h
  · obtain ⟨q, hq, rfl⟩ := Option.map_eq_some_iff.1 h
    exact .inl ⟨q, hq, rfl⟩
  · exact .inr h

/-- A worker takes the first task of the queue. -/
theorem start_cases {s s' : HttpServer Q} (h : s.step reply idle .start = some s') :
    ∃ t queue, s.queue = t :: queue ∧ s' = { s with queue, tasks := s.tasks ++ [t] } := by
  cases hq : s.queue with
  | nil => simp [HttpServer.step, hq] at h
  | cons t queue =>
    simp only [HttpServer.step, hq, Option.some.injEq] at h
    exact ⟨t, queue, rfl, h.symm⟩

/-! ### The main thread -/

variable (reply idle) in
/-- The steps of the main thread. -/
inductive MainCase (s : HttpServer Q) (r : MainSys) : HttpServer Q → Prop
  | loop : s.main = .loop → MainCase s r { s with main := if s.running then .wait else .stop }
  | wait {evs : List Event} {s₁ : HttpServer Q} : s.main = .wait → s.deliverAll evs = some s₁ →
      r = .events evs → MainCase s r { s₁ with main := .events evs }
  | interrupted : s.main = .wait → MainCase s r { s with main := .loop }
  | failed : s.main = .wait → MainCase s r { s with main := .stop }
  | batchEnd : s.main = .events [] → MainCase s r { s with main := .idle }
  | listen {rest : List Event} : s.main = .events (.listen :: rest) →
      MainCase s r { s with main := .accept rest }
  | hangup {fd : Fd} {rest : List Event} : s.main = .events (.client fd .hangup :: rest) →
      MainCase s r { s with main := .closing fd .closeBegin (.events rest) }
  | ready {fd : Fd} {i : Interest} {rest : List Event} :
      s.main = .events (.client fd i.kind :: rest) →
      MainCase s r { s with main := .dispatch fd i rest }
  | accepted {fd : Fd} {peerIp : Bytes} {rest : List Event} : s.main = .accept rest →
      r = .accepted fd peerIp → s.files fd = none → MainCase s r { s with
        files := Function.update s.files fd (some { owner := s.next })
        latest := Function.update s.latest fd (some s.next)
        main := .register fd peerIp rest }
  | refused {rest : List Event} : s.main = .accept rest →
      MainCase s r { s with main := .events rest }
  | register {fd : Fd} {peerIp : Bytes} {rest : List Event} : s.main = .register fd peerIp rest →
      MainCase s r { s.register idle fd peerIp with main := .add fd rest }
  | add {fd : Fd} {rest : List Event} : s.main = .add fd rest →
      MainCase s r { s.epollAdd fd .input with main := .accept rest }
  | gone {fd : Fd} {interest : Interest} {rest : List Event} :
      s.main = .dispatch fd interest rest → s.connections.lookup fd = none →
      MainCase s r { s with main := .events rest }
  | dispatch {fd : Fd} {c : ConnId} {interest : Interest} {rest : List Event} :
      s.main = .dispatch fd interest rest → s.connections.lookup fd = some c →
      MainCase s r { s with main := .begin fd c interest rest }
  | begin {fd : Fd} {c : ConnId} {interest : Interest} {rest : List Event} :
      s.main = .begin fd c interest rest → (s.conns c).closed = false →
      (s.conns c).processing = false → MainCase s r
        { s.setConn c ((s.conns c).setProcessing true) with main := .enqueue fd c interest rest }
  | discard {fd : Fd} {c : ConnId} {interest : Interest} {rest : List Event} :
      s.main = .begin fd c interest rest →
      (s.conns c).closed = true ∨ (s.conns c).processing = true →
      MainCase s r { s with main := .events rest }
  | enqueue {fd : Fd} {c : ConnId} {interest : Interest} {rest : List Event} :
      s.main = .enqueue fd c interest rest → MainCase s r
        { s with queue := s.queue ++ [⟨fd, c, beginPc interest⟩], main := .events rest }
  | close {fd : Fd} {pc : Pc ConnId} {caller : Caller} {s₁ : HttpServer Q}
      {pc' : Option (Pc ConnId)} : s.main = .closing fd pc caller →
      s.perform idle fd (pc.code reply) .done = some (s₁, pc') →
      MainCase s r { s₁ with main := pc'.elim caller.main fun pc' => .closing fd pc' caller }
  | idle : s.main = .idle → MainCase s r
      { s with timers := (s.timers.popExpired s.now).2
               main := .expired (s.timers.popExpired s.now).1 }
  | idleEnd : s.main = .expired [] → MainCase s r { s with main := .loop }
  | idleNext {fd : Fd} {rest : List Fd} : s.main = .expired (fd :: rest) → r = .done →
      MainCase s r { s with main := .closing fd .closeBegin (.idle rest) }
  | stop : s.main = .stop → MainCase s r { s with running := false, main := .join }
  | join : s.main = .join → s.queue = [] → s.tasks = [] →
      MainCase s r { s with main := .shutdown }
  | shutdown : s.main = .shutdown → r = .done → MainCase s r { s.closeAll with main := .stopped }

theorem mainStep_cases {s s' : HttpServer Q} {r : MainSys}
    (h : s.mainStep reply idle r = some s') : MainCase reply idle s r s' := by
  unfold mainStep at h
  split at h
  · cases h; exact .loop ‹_›
  · obtain ⟨s₁, hs₁, rfl⟩ := Option.map_eq_some_iff.1 h
    exact .wait ‹_› hs₁ rfl
  · cases h; exact .interrupted ‹_›
  · cases h; exact .failed ‹_›
  · cases h; exact .batchEnd ‹_›
  · cases h; exact .listen ‹_›
  · cases h; exact .hangup ‹_›
  · cases h; exact MainCase.ready (i := .input) ‹_›
  · cases h; exact MainCase.ready (i := .output) ‹_›
  · split_ifs at h with hfile
    cases h; exact .accepted ‹_› rfl (by simpa using hfile)
  · cases h; exact .refused ‹_›
  · cases h; exact .register ‹_›
  · cases h; exact .add ‹_›
  · split at h <;> cases h
    · exact .gone ‹_› ‹_›
    · exact .dispatch ‹_› ‹_›
  · split_ifs at h with hfree <;> cases h
    · rw [Bool.and_eq_true, Bool.not_eq_true', Bool.not_eq_true'] at hfree
      exact .begin ‹_› hfree.1 hfree.2
    · refine .discard ‹_› ?_
      rwa [Bool.and_eq_true, Bool.not_eq_true', Bool.not_eq_true', not_and_or,
        Bool.not_eq_false, Bool.not_eq_false] at hfree
  · cases h; exact .enqueue ‹_›
  · obtain ⟨⟨s₁, pc'⟩, hperform, rfl⟩ := Option.map_eq_some_iff.1 h
    have hcase := MainCase.close (r := .done) ‹_› hperform
    cases pc' <;> exact hcase
  · cases h; exact .idle ‹_›
  · cases h; exact .idleEnd ‹_›
  · cases h; exact .idleNext ‹_› rfl
  · cases h; exact .stop ‹_›
  · split_ifs at h with hempty
    cases h; exact .join ‹_› hempty.1 hempty.2
  · cases h; exact .shutdown ‹_› rfl
  · cases h

end Step

end HttpServer

end MiniServer
