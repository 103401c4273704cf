import MiniServer.Server.Steps

/-!
# Who may work on a descriptor

`EPOLLONESHOT` makes readiness a token: a descriptor is armed, or its event is delivered and not
handled yet, or the main thread is handling it, or a task works on it.  `tally` counts the tokens of
a descriptor.

No step but `accept` makes a token (`Outcome`, `deliverAll_armed`); the invariant over runs is in
`MiniServer.Server.Single`.
-/

namespace MiniServer

/-- An event of the client with this descriptor. -/
def Event.isFor (fd : Fd) : Event → Bool
  | .listen => false
  | .client fd' _ => fd' = fd

namespace Main

/-- The delivered events that are not handled yet. -/
def pending : Main → List Event
  | .events rest => rest
  | .accept rest => rest
  | .register _ _ rest => rest
  | .add _ rest => rest
  | .dispatch _ _ rest => rest
  | .begin _ _ _ rest => rest
  | .enqueue _ _ _ rest => rest
  | .closing _ _ (.events rest) => rest
  | _ => []

/-- The descriptor that the main thread is accepting. -/
def accepting : Main → Option Fd
  | .register fd _ _ => some fd
  | .add fd _ => some fd
  | _ => none

/-- The descriptor whose event the main thread is handling. -/
def handling : Main → Option Fd
  | .dispatch fd _ _ => some fd
  | .begin fd _ _ _ => some fd
  | .enqueue fd _ _ _ => some fd
  | .closing fd _ (.events _) => some fd
  | _ => none

/-- The tokens of a descriptor that the main thread holds. -/
def tokens (m : Main) (fd : Fd) : ℕ :=
  m.pending.countP (Event.isFor fd) + (if m.accepting = some fd then 1 else 0) +
    (if m.handling = some fd then 1 else 0)

end Main

/-- A task that works on this descriptor and has not passed its final re-arm or close. -/
def Task.worksOn (fd : Fd) (t : Task) : Bool := t.fd = fd && t.pc.active

namespace HttpServer

variable {Q : Type}

/-- The `epoll` registration of a descriptor. -/
def registration (s : HttpServer Q) (fd : Fd) : Option (Option Interest) :=
  (s.files fd).bind File.epoll

/-- The descriptor can deliver an event. -/
def armed (s : HttpServer Q) (fd : Fd) : Bool := ((s.registration fd).bind id).isSome

/-- The number of tasks that work on a descriptor. -/
def workers (s : HttpServer Q) (fd : Fd) : ℕ := (s.queue ++ s.tasks).countP (Task.worksOn fd)

/-- The number of tokens of a descriptor. -/
def tally (s : HttpServer Q) (fd : Fd) : ℕ :=
  (s.armed fd).toNat + s.main.tokens fd + s.workers fd

/-! ### Registrations -/

theorem registration_updateFile (s : HttpServer Q) (fd : Fd) (g : File → File) :
    (s.updateFile fd g).registration =
      Function.update s.registration fd ((s.files fd).bind fun f => (g f).epoll) := by
  have hcomp := Function.comp_update (fun file : Option File => file.bind File.epoll) s.files fd
    ((s.files fd).map g)
  rw [Option.bind_map] at hcomp
  exact hcomp

theorem registration_updateFile_same (s : HttpServer Q) (fd : Fd) {g : File → File}
    (hg : ∀ f, (g f).epoll = f.epoll) : (s.updateFile fd g).registration = s.registration := by
  rw [registration_updateFile]
  simp only [hg]
  exact Function.update_eq_self fd s.registration

theorem registration_moveBytes (s : HttpServer Q) (fd : Fd) :
    (s.moveBytes fd).registration = s.registration :=
  registration_updateFile_same s fd fun _ => rfl

theorem registration_epollMod (s : HttpServer Q) (fd : Fd) (interest : Interest) :
    (s.epollMod fd interest).registration =
      Function.update s.registration fd ((s.registration fd).map fun _ => some interest) := by
  rw [epollMod, registration_updateFile, registration, Option.map_bind]
  rfl

theorem registration_epollDel (s : HttpServer Q) (fd : Fd) :
    (s.epollDel fd).registration = Function.update s.registration fd none := by
  rw [epollDel, registration_updateFile]
  cases s.files fd <;> rfl

theorem registration_closeFile (s : HttpServer Q) (fd : Fd) :
    (s.closeFile fd).registration = Function.update s.registration fd none :=
  Function.comp_update (fun file : Option File => file.bind File.epoll) s.files fd none

/-- A delivered event takes the token of an armed descriptor. -/
theorem deliver_armed {s s' : HttpServer Q} {ev : Event} (h : s.deliver ev = some s') (fd : Fd) :
    (s'.armed fd).toNat + (if ev.isFor fd then 1 else 0) = (s.armed fd).toNat ∧
      (s'.registration fd).isSome = (s.registration fd).isSome := by
  unfold deliver at h
  split at h
  · cases h
    simp [Event.isFor]
  · rename_i fd' kind
    split at h
    · rename_i interest hreg
      split_ifs at h
      cases h
      have hreg : s.registration fd' = some (some interest) := hreg
      have hmap : ((s.files fd').bind fun f => File.epoll { f with epoll := some none }) =
          some none := by
        rw [registration, Option.bind_eq_some_iff] at hreg
        obtain ⟨f, hf, -⟩ := hreg
        rw [hf]
        rfl
      simp only [armed, registration_updateFile, hmap, Event.isFor]
      by_cases hfd : fd = fd'
      · subst hfd
        simp [hreg]
      · simp [Function.update_of_ne hfd, Ne.symm hfd]
    · cases h

theorem deliverAll_armed {s s' : HttpServer Q} {evs : List Event}
    (h : s.deliverAll evs = some s') (fd : Fd) :
    (s'.armed fd).toNat + evs.countP (Event.isFor fd) = (s.armed fd).toNat ∧
      (s'.registration fd).isSome = (s.registration fd).isSome := by
  induction evs generalizing s with
  | nil => cases h; exact ⟨rfl, rfl⟩
  | cons ev evs ih =>
    obtain ⟨s₁, hev, h⟩ := Option.bind_eq_some_iff.1 h
    obtain ⟨hcount, hsome⟩ := deliver_armed hev fd
    obtain ⟨hcount', hsome'⟩ := ih h
    refine ⟨?_, hsome'.trans hsome⟩
    rw [List.countP_cons, ← hcount, ← hcount']
    omega

section Step

variable [PriorityQueue Q (TimerHeap.Node Fd ℕ) TimerHeap.later]
variable {reply : Bytes → Answer} {idle : ℕ}

/-! ### Steps of a handler -/

theorem registration_refreshTimer (idle : ℕ) (s : HttpServer Q) (fd : Fd) :
    (s.refreshTimer idle fd).registration = s.registration :=
  registration_updateFile_same { s with timers := _ } fd fun _ => rfl

theorem perform_conns {s s' : HttpServer Q} {fd : Fd} {pc : Pc ConnId} {r : Sys}
    {pc' : Option (Pc ConnId)} (h : s.perform idle fd (pc.code reply) r = some (s', pc'))
    {c : ConnId} (hc : pc.conn? ≠ some c) : s'.conns c = s.conns c := by
  rcases perform_conns_cases h c with heq | ⟨body, hcode, -⟩
  · exact heq
  · exact absurd (Pc.conn?_of_locked hcode) hc

theorem perform_lookup_ne {s s' : HttpServer Q} {fd fd' : Fd} {a : Action ConnId} {r : Sys}
    {pc' : Option (Pc ConnId)} (h : s.perform idle fd a r = some (s', pc')) (hfd : fd' ≠ fd) :
    s'.connections.lookup fd' = s.connections.lookup fd' := by
  cases perform_tables h with
  | same hconn _ => rw [hconn]
  | refresh hconn _ => rw [hconn]
  | erase hconn _ => rw [hconn, Finmap.lookup_erase_ne hfd]

theorem perform_closed_eq {s s' : HttpServer Q} {fd : Fd} {pc : Pc ConnId} {r : Sys}
    {pc' : Option (Pc ConnId)} (h : s.perform idle fd (pc.code reply) r = some (s', pc'))
    (hpc : pc.pastErase = false) (c : ConnId) : (s'.conns c).closed = (s.conns c).closed := by
  rcases perform_conns_cases h c with heq | ⟨body, hcode, heq⟩
  · rw [heq]
  · rw [heq, Pc.closed_eq_of_locked hcode hpc]

theorem perform_registration_ne {s s' : HttpServer Q} {fd fd' : Fd} {a : Action ConnId} {r : Sys}
    {pc' : Option (Pc ConnId)} (h : s.perform idle fd a r = some (s', pc')) (hfd : fd' ≠ fd) :
    s'.registration fd' = s.registration fd' := by
  have hupdate : ∀ (s : HttpServer Q) g, (s.updateFile fd g).registration fd' =
      s.registration fd' := fun s g => by
    rw [registration_updateFile, Function.update_of_ne hfd]
  cases perform_cases h with
  | readData _ => exact hupdate s _
  | wrote _ _ => exact hupdate s _
  | lockedArm _ => exact hupdate (s.setConn _ _) _
  | refresh => exact hupdate { s with timers := _ } _
  | mod => exact hupdate s _
  | del => exact hupdate s _
  | close => rw [registration_closeFile, Function.update_of_ne hfd]
  | _ => rfl

theorem perform_close_registration {s s' : HttpServer Q} {fd : Fd} {pc : Pc ConnId} {r : Sys}
    {pc' : Option (Pc ConnId)} (hpc : pc = .closeBegin ∨ pc.pastErase = true)
    (h : s.perform idle fd (pc.code reply) r = some (s', pc')) :
    s'.registration = s.registration ∨
      s'.registration = Function.update s.registration fd none := by
  cases handler_cases h with
  | closeGone _ => exact .inl rfl
  | closeErase _ => exact .inl rfl
  | markClosed => exact .inl rfl
  | del => exact .inr (registration_epollDel s fd)
  | close => exact .inr (registration_closeFile s fd)
  | _ => rcases hpc with hpc | hpc <;> cases hpc

/-- The outcomes of a step at `pc` on the descriptor `fd`, as far as tokens are concerned. -/
inductive Outcome (s s' : HttpServer Q) (fd : Fd) (pc : Pc ConnId) :
    Option (Pc ConnId) → Prop
  /-- The handler goes on. -/
  | goOn {q : Pc ConnId} : pc.active = true → q.active = true → pc.pastErase = false →
      s'.registration = s.registration →
      (∀ c i record, q = .rearm c i record →
        (s'.conns c).closed = true ∨ (s'.conns c).processing = false) → Outcome s s' fd pc (some q)
  /-- The handler is in `closeConnection`. -/
  | close {q : Option (Pc ConnId)} : pc.pastErase = true → (∀ p ∈ q, p.active = true) →
      (∀ p ∈ q, ∀ c i record, p ≠ .rearm c i record) →
      s'.registration = s.registration ∨ s'.registration = Function.update s.registration fd none →
      Outcome s s' fd pc q
  /-- The handler gives its token back to `epoll`. -/
  | rearm {q : Option (Pc ConnId)} {c : ConnId} {i : Interest} : pc.active = true →
      pc.pastErase = false → (∀ p ∈ q, p.active = false) → pc.conn? = some c →
      s'.registration =
        Function.update s.registration fd ((s.registration fd).map fun _ => some i) →
      (s'.conns c).processing = false ∨
        (∃ record, pc = .rearm c i record) ∧ s'.conns = s.conns → Outcome s s' fd pc q
  /-- The handler finds its connection gone, or has only logged. -/
  | leave : pc.pastErase = false → s'.registration = s.registration →
      (pc.active = true → s.connections.lookup fd = none ∨
        ∃ c, pc.conn? = some c ∧ (s.conns c).closed = true) →
      (pc.active = false → s' = s) → Outcome s s' fd pc none

theorem perform_outcome {s s' : HttpServer Q} {fd : Fd} {pc : Pc ConnId} {r : Sys}
    {pc' : Option (Pc ConnId)} (h : s.perform idle fd (pc.code reply) r = some (s', pc')) :
    Outcome s s' fd pc pc' := by
  have hrearm : ∀ {s' : HttpServer Q} {q : Option (Pc ConnId)} {c : ConnId} {i : Interest}
      {record : Option Answer}, (∀ p ∈ q, p.active = false) → s' = s.epollMod fd i →
        Outcome s s' fd (.rearm c i record) q := by
    rintro _ q c i record hq rfl
    exact .rearm (c := c) rfl rfl hq rfl (registration_epollMod s fd i) (.inr ⟨⟨record, rfl⟩, rfl⟩)
  cases handler_cases h with
  -- the connection is gone
  | readGone hc => exact .leave rfl rfl (fun _ => .inl hc) (by rintro ⟨⟩)
  | writeGone hc => exact .leave rfl rfl (fun _ => .inl hc) (by rintro ⟨⟩)
  | processGone hc => exact .leave rfl rfl (fun _ => .inl hc) (by rintro ⟨⟩)
  | closeGone hc => exact .leave rfl rfl (fun _ => .inl hc) (by rintro ⟨⟩)
  | respondClosed hclosed => exact .leave rfl rfl (fun _ => .inr ⟨_, rfl, hclosed⟩) (by rintro ⟨⟩)
  | access => exact .leave rfl rfl (by rintro ⟨⟩) fun _ => rfl
  -- the token goes back to `epoll`
  | @extractNone c _ =>
    refine .rearm (c := c) rfl rfl (by rintro _ ⟨⟩) rfl
      (registration_epollMod (s.setConn c _) fd _) (.inl ?_)
    change (Function.update s.conns c _ c).processing = false
    rw [Function.update_self]
    rfl
  | rearm => exact hrearm (by rintro _ ⟨⟩) rfl
  | rearmLog => exact hrearm (by rintro _ ⟨⟩; rfl) rfl
  | finish =>
    refine .goOn rfl rfl rfl rfl ?_
    rintro _ _ _ ⟨⟩
    simp only [setConn, Function.update_self]
    split_ifs with hclosed
    · exact .inl hclosed
    · exact .inr rfl
  -- `closeConnection`
  | markClosed => exact .close rfl (by rintro _ ⟨⟩; rfl) (by rintro _ ⟨⟩; simp) (.inl rfl)
  | del =>
    exact .close rfl (by rintro _ ⟨⟩; rfl) (by rintro _ ⟨⟩; simp)
      (.inr (registration_epollDel s fd))
  | close =>
    exact .close rfl (by rintro _ ⟨⟩) (by rintro _ ⟨⟩) (.inr (registration_closeFile s fd))
  -- the handler goes on
  | readData _ => exact .goOn rfl rfl rfl (registration_moveBytes s fd) (by rintro _ _ _ ⟨⟩)
  | wrote _ _ => exact .goOn rfl rfl rfl (registration_moveBytes s fd) (by rintro _ _ _ ⟨⟩)
  | readRefresh =>
    exact .goOn rfl rfl rfl (registration_refreshTimer idle s fd) (by rintro _ _ _ ⟨⟩)
  | writeRefresh =>
    exact .goOn rfl rfl rfl (registration_refreshTimer idle s fd) (by rintro _ _ _ ⟨⟩)
  | writeRefreshMore =>
    exact .goOn rfl rfl rfl (registration_refreshTimer idle s fd) (by rintro _ _ _ ⟨⟩)
  | _ => exact .goOn rfl rfl rfl rfl (by rintro _ _ _ ⟨⟩)

end Step

end HttpServer

end MiniServer
