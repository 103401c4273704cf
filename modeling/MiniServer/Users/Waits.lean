import MiniServer.Users.Returns

/-!
# Handlers that wait for a lease

In `AuthServer` a call waits for its lease in one step.  Here every call has a thread, whose steps
at `cv_` are those of `Callers`: `cv_.wait` and `cv_.notify_one` are steps of their own, and a
notification is lost when no thread sleeps.

The runs are runs of `AuthServer` (`reachable_server`), and with threads that have no call yet they
are runs of `Callers` (`reachable_callers`).  So no wakeup is lost, a call waits only for calls that
go on, and all calls return (`all_return`).
-/

namespace MiniServer

/-- The user service, with the threads of its calls. -/
structure NotifiedAuth where
  server : AuthServer
  /-- The thread of each call. -/
  threads : List CallPc := []

namespace NotifiedAuth

/-- The steps of the threads. -/
inductive Label where
  /-- The thread that runs `init`. -/
  | pool (op : DatabasePool.PoolOp)
  /-- `route` is called. -/
  | call (op : UserOp)
  /-- The next step of a call. -/
  | step (k : ℕ)
  /-- `cv_.notify_one` in `release`, with the call that it wakes. -/
  | notify (k : ℕ) (woken : Option ℕ)
  /-- A call returns from `cv_.wait` without a notification. -/
  | wake (k : ℕ)
  /-- `route` returns. -/
  | returns (k : ℕ)

/-- The pool and the threads. -/
def callers (s : NotifiedAuth) : Callers := ⟨s.server.pool, s.threads⟩

/-- A thread in a new state. -/
def setThread (s : NotifiedAuth) (k : ℕ) (pc : CallPc) : NotifiedAuth :=
  { s with threads := s.threads.set k pc }

/-- The thread of a new call. -/
def beginPc : DbProgram RoutedResponse → CallPc
  | .acquire _ => .enter
  | _ => .idle

/-- The call is about to destroy its lease. -/
def releases (s : NotifiedAuth) (k : ℕ) : Bool :=
  match s.server.calls[k]? with
  | some (some ⟨_, .release _⟩) => true
  | _ => false

section Step

variable (sql : Sql) (poolSize : ℕ)

/-- A step of the program of a call, and its thread behind it. -/
def callStep (s : NotifiedAuth) (k : ℕ) (pc : CallPc) : Option NotifiedAuth :=
  (s.server.step sql poolSize (.step k)).map fun server => { s with server }.setThread k pc

/-- A step; as in `Callers`, `init` is over when the calls start. -/
def step (s : NotifiedAuth) : Label → Option NotifiedAuth
  | .pool op =>
    if s.server.pool.phase = .ready then none
    else (s.server.step sql poolSize (.pool op)).map fun server => { s with server }
  | .call op => (s.server.step sql poolSize (.call op)).map fun server =>
    ⟨server, s.threads ++ [beginPc (sql.route op.1)]⟩
  | .step k =>
    match s.threads[k]? with
    | some .enter | some .woken =>
      if s.server.pool.available = [] then some (s.setThread k .asleep)
      else s.callStep sql poolSize k .holding
    | some .holding =>
      if s.releases k then s.callStep sql poolSize k .notify
      else (s.server.step sql poolSize (.step k)).map fun server => { s with server }
    | _ => none
  | .notify k woken =>
    if s.threads[k]? = some .notify then
      (s.callers.notifyStep k woken).map fun callers => { s with threads := callers.threads }
    else none
  | .wake k => if s.threads[k]? = some .asleep then some (s.setThread k .woken) else none
  | .returns k =>
    if s.threads[k]? = some .idle then
      (s.server.step sql poolSize (.returns k)).map fun server => { s with server }
    else none

/-- The pool from its constructor on, with the table that MySQL holds. -/
def lts (users : Users) : LTS NotifiedAuth Label where
  init := { server := { users } }
  step := step sql poolSize

end Step

/-! ### One step -/

/-- What a step does. -/
inductive StepCase (sql : Sql) (poolSize : ℕ) (s : NotifiedAuth) : Label → NotifiedAuth → Prop
  | pool (op : DatabasePool.PoolOp) (server : AuthServer) : s.server.pool.phase ≠ .ready →
      s.server.step sql poolSize (.pool op) = some server →
      StepCase sql poolSize s (.pool op) { s with server }
  | call (op : UserOp) (server : AuthServer) :
      s.server.step sql poolSize (.call op) = some server →
      StepCase sql poolSize s (.call op) ⟨server, s.threads ++ [beginPc (sql.route op.1)]⟩
  /-- `wait` puts a thread to sleep. -/
  | sleep (k : ℕ) (pc : CallPc) : s.threads[k]? = some pc → pc = .enter ∨ pc = .woken →
      s.server.pool.available = [] → StepCase sql poolSize s (.step k) (s.setThread k .asleep)
  | acquire (k : ℕ) (pc : CallPc) (server : AuthServer) : s.threads[k]? = some pc →
      pc = .enter ∨ pc = .woken → s.server.pool.available ≠ [] →
      s.server.step sql poolSize (.step k) = some server →
      StepCase sql poolSize s (.step k) ({ s with server }.setThread k .holding)
  /-- A step with MySQL. -/
  | talk (k : ℕ) (server : AuthServer) : s.threads[k]? = some .holding → s.releases k = false →
      s.server.step sql poolSize (.step k) = some server →
      StepCase sql poolSize s (.step k) { s with server }
  | release (k : ℕ) (server : AuthServer) : s.threads[k]? = some .holding →
      s.releases k = true → s.server.step sql poolSize (.step k) = some server →
      StepCase sql poolSize s (.step k) ({ s with server }.setThread k .notify)
  /-- `notify_one` finds no sleeper. -/
  | notify (k : ℕ) : s.threads[k]? = some .notify → .asleep ∉ s.threads →
      StepCase sql poolSize s (.notify k none) (s.setThread k .idle)
  | notifyOne (k j : ℕ) : s.threads[k]? = some .notify → s.threads[j]? = some .asleep →
      StepCase sql poolSize s (.notify k (some j)) ((s.setThread k .idle).setThread j .woken)
  | wake (k : ℕ) : s.threads[k]? = some .asleep →
      StepCase sql poolSize s (.wake k) (s.setThread k .woken)
  | returns (k : ℕ) (server : AuthServer) : s.threads[k]? = some .idle →
      s.server.step sql poolSize (.returns k) = some server →
      StepCase sql poolSize s (.returns k) { s with server }

variable {sql : Sql} {poolSize : ℕ} {users₀ : Users}

theorem lock_cases {s s' : NotifiedAuth} {k : ℕ} {pc : CallPc} (hk : s.threads[k]? = some pc)
    (hpc : pc = .enter ∨ pc = .woken)
    (h : (if s.server.pool.available = [] then some (s.setThread k .asleep)
      else s.callStep sql poolSize k .holding) = some s') :
    StepCase sql poolSize s (.step k) s' := by
  split_ifs at h with hempty
  · cases h
    exact .sleep k pc hk hpc hempty
  · obtain ⟨server, hserver, rfl⟩ := Option.map_eq_some_iff.1 h
    exact .acquire k pc server hk hpc hempty hserver

theorem step_cases {s s' : NotifiedAuth} {l : Label} (h : s.step sql poolSize l = some s') :
    StepCase sql poolSize s l s' := by
  cases l with
  | pool op =>
    obtain ⟨hphase, h⟩ := Option.ite_none_left_eq_some.1 h
    obtain ⟨server, hserver, rfl⟩ := Option.map_eq_some_iff.1 h
    exact .pool op server hphase hserver
  | call op =>
    obtain ⟨server, hserver, rfl⟩ := Option.map_eq_some_iff.1 h
    exact .call op server hserver
  | step k =>
    simp only [step] at h
    split at h
    · exact lock_cases ‹_› (.inl rfl) h
    · exact lock_cases ‹_› (.inr rfl) h
    · split_ifs at h with hreleases
      · obtain ⟨server, hserver, rfl⟩ := Option.map_eq_some_iff.1 h
        exact .release k server ‹_› hreleases hserver
      · obtain ⟨server, hserver, rfl⟩ := Option.map_eq_some_iff.1 h
        exact .talk k server ‹_› (Bool.eq_false_iff.2 hreleases) hserver
    · cases h
  | notify k woken =>
    obtain ⟨hk, h⟩ := Option.ite_none_right_eq_some.1 h
    obtain ⟨callers, hcallers, rfl⟩ := Option.map_eq_some_iff.1 h
    cases woken with
    | none =>
      obtain ⟨hnobody, ⟨⟩⟩ := Option.ite_none_left_eq_some.1 hcallers
      exact .notify k hk hnobody
    | some j =>
      obtain ⟨hj, ⟨⟩⟩ := Option.ite_none_right_eq_some.1 hcallers
      exact .notifyOne k j hk hj
  | wake k =>
    obtain ⟨hk, ⟨⟩⟩ := Option.ite_none_right_eq_some.1 h
    exact .wake k hk
  | returns k =>
    obtain ⟨hk, h⟩ := Option.ite_none_right_eq_some.1 h
    obtain ⟨server, hserver, rfl⟩ := Option.map_eq_some_iff.1 h
    exact .returns k server hk hserver

/-- The thread that notifies is not the one that it wakes. -/
theorem asleep_of_notifies {s : NotifiedAuth} {k j : ℕ} (hk : s.threads[k]? = some .notify)
    (hj : s.threads[j]? = some .asleep) : (s.setThread k .idle).threads[j]? = some .asleep := by
  have hne : k ≠ j := by
    rintro rfl
    rw [hk] at hj
    cases hj
  exact (List.getElem?_set_ne hne).trans hj

/-- **A run of the threads is a run of the user service.** -/
theorem reachable_server {s : NotifiedAuth} (h : (lts sql poolSize users₀).Reachable s) :
    (AuthServer.lts sql poolSize users₀).Reachable s.server := by
  refine h.refine (B := AuthServer.lts sql poolSize users₀) (f := NotifiedAuth.server) rfl ?_
  intro s l s' _ hstep
  cases step_cases hstep with
  | pool op server _ hserver => exact ⟨[.pool op], LTS.run_singleton hserver⟩
  | call op server hserver => exact ⟨[.call op], LTS.run_singleton hserver⟩
  | acquire k pc server _ _ _ hserver => exact ⟨[.step k], LTS.run_singleton hserver⟩
  | talk k server _ _ hserver => exact ⟨[.step k], LTS.run_singleton hserver⟩
  | release k server _ _ hserver => exact ⟨[.step k], LTS.run_singleton hserver⟩
  | returns k server _ hserver => exact ⟨[.returns k], LTS.run_singleton hserver⟩
  | _ => exact ⟨[], rfl⟩

/-! ### Threads and calls -/

/-- Where the thread of a call can be. -/
def Fits : Option UserCall → CallPc → Prop
  | some ⟨_, .acquire _⟩, pc => pc = .enter ∨ pc = .asleep ∨ pc = .woken
  | some ⟨_, .done _⟩, pc => pc = .idle ∨ pc = .notify
  | some _, pc => pc = .holding
  | none, pc => pc = .idle

theorem fits_holding_iff {op : UserOp} {p : DbProgram RoutedResponse} :
    Fits (some ⟨op, p⟩) .holding ↔ p.holds = true := by
  cases p <;> simp [Fits, DbProgram.holds]

theorem not_releases {s : NotifiedAuth} {k : ℕ} {op : UserOp} {p : DbProgram RoutedResponse}
    (hk : s.server.calls[k]? = some (some ⟨op, p⟩)) (hp : ∀ next, p ≠ .release next) :
    s.releases k = false := by
  rw [releases, hk]
  split
  · rename_i heq
    cases heq
    exact absurd rfl (hp _)
  · rfl

theorem exists_acquire_of_fits {c : Option UserCall} {pc : CallPc} (h : Fits c pc)
    (hpc : pc = .enter ∨ pc = .asleep ∨ pc = .woken) : ∃ op next, c = some ⟨op, .acquire next⟩ := by
  rcases c with _ | ⟨op, p⟩
  · rcases hpc with rfl | rfl | rfl <;> cases h
  · cases p with
    | acquire next => exact ⟨op, next, rfl⟩
    | _ => rcases hpc with rfl | rfl | rfl <;> simp [Fits] at h

/-- A call that waits can sleep and wake. -/
theorem fits_wait {c : Option UserCall} {pc : CallPc} (h : Fits c pc)
    (hpc : pc = .enter ∨ pc = .asleep ∨ pc = .woken) : Fits c .asleep ∧ Fits c .woken := by
  obtain ⟨op, next, rfl⟩ := exists_acquire_of_fits h hpc
  exact ⟨.inr (.inl rfl), .inr (.inr rfl)⟩

/-- A call that has notified is about to return. -/
theorem fits_idle {c : Option UserCall} (h : Fits c .notify) : Fits c .idle := by
  rcases c with _ | ⟨op, p⟩
  · rfl
  · cases p with
    | done response => exact .inl rfl
    | _ => simp [Fits] at h

theorem fits_beginPc (hsql : sql.Escapes) (op : UserOp) :
    Fits (some ⟨op, sql.route op.1⟩) (beginPc (sql.route op.1)) := by
  by_cases hauth : op.1.IsAuth
  · obtain ⟨p, hroute, -⟩ := DbProgram.exists_route_of_isAuth hsql hauth
    rw [hroute]
    exact .inl rfl
  · rw [DbProgram.route_of_not_isAuth sql hauth]
    exact .inl rfl

/-- Each call has its thread, and the calls start behind `init`. -/
structure Threaded (s : NotifiedAuth) : Prop where
  length : s.threads.length = s.server.calls.length
  fits : ∀ (k : ℕ) (c : Option UserCall) (pc : CallPc), s.server.calls[k]? = some c →
    s.threads[k]? = some pc → Fits c pc
  ready : s.threads ≠ [] → s.server.pool.phase = .ready

theorem Threaded.ready_of {s : NotifiedAuth} (hs : Threaded s) {k : ℕ} {pc : CallPc}
    (hk : s.threads[k]? = some pc) : s.server.pool.phase = .ready := by
  refine hs.ready ?_
  rintro hnil
  rw [hnil] at hk
  cases hk

theorem Threaded.exists_call {s : NotifiedAuth} (hs : Threaded s) {k : ℕ} {pc : CallPc}
    (hk : s.threads[k]? = some pc) : ∃ c, s.server.calls[k]? = some c ∧ Fits c pc := by
  have hlt : k < s.server.calls.length := by
    rw [← hs.length]
    exact (List.getElem?_eq_some_iff.1 hk).1
  exact ⟨_, List.getElem?_eq_getElem hlt, hs.fits k _ pc (List.getElem?_eq_getElem hlt) hk⟩

theorem Threaded.exists_thread {s : NotifiedAuth} (hs : Threaded s) {k : ℕ} {c : Option UserCall}
    (hk : s.server.calls[k]? = some c) : ∃ pc, s.threads[k]? = some pc ∧ Fits c pc := by
  have hlt : k < s.threads.length := by
    rw [hs.length]
    exact (List.getElem?_eq_some_iff.1 hk).1
  exact ⟨_, List.getElem?_eq_getElem hlt, hs.fits k c _ hk (List.getElem?_eq_getElem hlt)⟩

/-- A step of one call. -/
theorem Threaded.set {s s' : NotifiedAuth} (hs : Threaded s) {k : ℕ} {c : Option UserCall}
    {pc : CallPc} (hcalls : s'.server.calls = s.server.calls.set k c)
    (hthreads : s'.threads = s.threads.set k pc) (hfits : Fits c pc)
    (hready : s'.server.pool.phase = .ready) : Threaded s' where
  length := by rw [hthreads, hcalls, List.length_set, List.length_set, hs.length]
  fits j c' pc' hc hpc := by
    rw [hcalls, List.getElem?_set] at hc
    rw [hthreads, List.getElem?_set] at hpc
    split_ifs at hc hpc with hjk hlt hlt'
    · cases hc
      cases hpc
      exact hfits
    · exact hs.fits j c' pc' hc hpc
  ready _ := hready

/-- The thread of a call goes on, and its program does not. -/
theorem Threaded.thread {s : NotifiedAuth} (hs : Threaded s) {k : ℕ} {pc pc' : CallPc}
    (hk : s.threads[k]? = some pc) (hfits : ∀ c, Fits c pc → Fits c pc') :
    Threaded (s.setThread k pc') := by
  obtain ⟨c, hcall, hc⟩ := hs.exists_call hk
  obtain ⟨hlt, hget⟩ := List.getElem?_eq_some_iff.1 hcall
  refine hs.set (c := c) ?_ rfl (hfits c hc) (hs.ready_of hk)
  rw [← hget, List.set_getElem_self]
  rfl

/-- A new call. -/
theorem Threaded.call (hsql : sql.Escapes) {s : NotifiedAuth} (hs : Threaded s)
    (hready : s.server.pool.phase = .ready) (op : UserOp) : Threaded
      ⟨{ s.server with calls := s.server.calls ++ [some ⟨op, sql.route op.1⟩] },
        s.threads ++ [beginPc (sql.route op.1)]⟩ where
  length := by rw [List.length_append, List.length_append, hs.length]; rfl
  fits k c pc hc hpc := by
    rw [List.getElem?_append] at hc hpc
    rw [hs.length] at hpc
    split_ifs at hc hpc with hlt
    · exact hs.fits k c pc hc hpc
    · rw [List.getElem?_singleton] at hc hpc
      split_ifs at hc hpc
      cases hc
      cases hpc
      exact fits_beginPc hsql op
  ready _ := hready

/-- A call that takes a lease. -/
theorem Threaded.acquire {s : NotifiedAuth} {server : AuthServer} {m : AuthServer.Ledger}
    (hlinearized : AuthServer.Linearized sql users₀ s.server m) (hs : Threaded s) {k : ℕ}
    {pc : CallPc} (hk : s.threads[k]? = some pc) (hpc : pc = .enter ∨ pc = .woken)
    (h : s.server.step sql poolSize (.step k) = some server) :
    s.server.pool.step poolSize (.lease (.acquire k)) = some server.pool ∧
      Threaded ({ s with server }.setThread k .holding) := by
  obtain ⟨op, p, p', hcall, hcalls, hcase⟩ := AuthServer.call_cases hlinearized h
  have hready := hcase.phase_eq.trans (hs.ready_of hk)
  obtain ⟨_, _, ⟨⟩⟩ := exists_acquire_of_fits (hs.fits k _ pc hcall hk) (hpc.imp_right .inr)
  cases hcase with
  | acquire _ hholds hpool =>
    exact ⟨hpool, hs.set hcalls rfl (fits_holding_iff.2 hholds) hready⟩
  | talk _ _ hp => cases hp

/-- A call that talks with MySQL. -/
theorem Threaded.talk {s : NotifiedAuth} {server : AuthServer} {m : AuthServer.Ledger}
    (hlinearized : AuthServer.Linearized sql users₀ s.server m) (hs : Threaded s) {k : ℕ}
    (hk : s.threads[k]? = some .holding) (hreleases : s.releases k = false)
    (h : s.server.step sql poolSize (.step k) = some server) :
    server.pool = s.server.pool ∧ Threaded { s with server } := by
  obtain ⟨op, p, p', hcall, hcalls, hcase⟩ := AuthServer.call_cases hlinearized h
  have hready := hcase.phase_eq.trans (hs.ready_of hk)
  have hp := fits_holding_iff.1 (hs.fits k _ _ hcall hk)
  obtain ⟨hlt, hget⟩ := List.getElem?_eq_some_iff.1 hk
  have hsame : s.threads = s.threads.set k .holding := by rw [← hget, List.set_getElem_self]
  cases hcase with
  | acquire _ _ _ => cases hp
  | talk _ _ _ _ hholds _ hpool =>
    exact ⟨hpool, hs.set hcalls hsame (fits_holding_iff.2 hholds) hready⟩
  | release response hpool => simp [releases, hcall] at hreleases

/-- A call that destroys its lease. -/
theorem Threaded.release {s : NotifiedAuth} {server : AuthServer} {m : AuthServer.Ledger}
    (hlinearized : AuthServer.Linearized sql users₀ s.server m) (hs : Threaded s) {k : ℕ}
    (hk : s.threads[k]? = some .holding) (hreleases : s.releases k = true)
    (h : s.server.step sql poolSize (.step k) = some server) :
    s.server.pool.step poolSize (.lease (.destroy k)) = some server.pool ∧
      Threaded ({ s with server }.setThread k .notify) := by
  obtain ⟨op, p, p', hcall, hcalls, hcase⟩ := AuthServer.call_cases hlinearized h
  have hready := hcase.phase_eq.trans (hs.ready_of hk)
  have hp := fits_holding_iff.1 (hs.fits k _ _ hcall hk)
  cases hcase with
  | acquire _ _ _ => cases hp
  | talk _ _ _ hnot => exact absurd hreleases (by simp [not_releases hcall hnot])
  | release response hpool => exact ⟨hpool, hs.set hcalls rfl (.inr rfl) hready⟩

theorem Threaded.step (hsql : sql.Escapes) {s s' : NotifiedAuth} {m : AuthServer.Ledger} {l : Label}
    (hlinearized : AuthServer.Linearized sql users₀ s.server m) (hs : Threaded s)
    (h : s.step sql poolSize l = some s') : Threaded s' := by
  cases step_cases h with
  | pool op server hphase hserver =>
    obtain ⟨pool, hpool, rfl⟩ := Option.map_eq_some_iff.1 hserver
    exact ⟨hs.length, hs.fits, fun hne => absurd (hs.ready hne) hphase⟩
  | call op server hserver =>
    obtain ⟨hready, ⟨⟩⟩ := Option.ite_none_right_eq_some.1 hserver
    exact hs.call hsql hready op
  | sleep k pc hk hpc _ =>
    exact hs.thread hk fun c hc => (fits_wait hc (hpc.imp_right .inr)).1
  | acquire k pc server hk hpc _ hserver => exact (hs.acquire hlinearized hk hpc hserver).2
  | talk k server hk hreleases hserver => exact (hs.talk hlinearized hk hreleases hserver).2
  | release k server hk hreleases hserver => exact (hs.release hlinearized hk hreleases hserver).2
  | notify k hk hnobody => exact hs.thread hk fun c => fits_idle
  | notifyOne k j hk hj =>
    have hidle := hs.thread hk fun c => fits_idle
    exact hidle.thread (asleep_of_notifies hk hj) fun c hc => (fits_wait hc (.inr (.inl rfl))).2
  | wake k hk => exact hs.thread hk fun c hc => (fits_wait hc (.inr (.inl rfl))).2
  | returns k server hk hserver =>
    obtain ⟨op, response, hcall, rfl⟩ := AuthServer.returns_cases hserver
    obtain ⟨hlt, hget⟩ := List.getElem?_eq_some_iff.1 hk
    have hsame : s.threads = s.threads.set k .idle := by rw [← hget, List.set_getElem_self]
    exact hs.set rfl hsame rfl (hs.ready_of hk)

theorem threaded_of_reachable (hsql : sql.Escapes) {s : NotifiedAuth}
    (h : (lts sql poolSize users₀).Reachable s) : Threaded s := by
  refine LTS.ReachableIf.invariant (I := Threaded) h
    ⟨rfl, (fun _ _ _ hc => by cases hc), fun hne => absurd rfl hne⟩
    fun s l s' hreach hs _ hstep => ?_
  obtain ⟨m, hlinearized⟩ := AuthServer.exists_linearized hsql (reachable_server hreach)
  exact hs.step hsql hlinearized hstep

/-! ### The threads are those of `Callers` -/

/-- The pool and the threads, with `n` threads that have no call yet. -/
def padded (s : NotifiedAuth) (n : ℕ) : Callers :=
  ⟨s.server.pool, s.threads ++ List.replicate n .idle⟩

theorem padded_get {s : NotifiedAuth} {k : ℕ} {pc : CallPc} (hk : s.threads[k]? = some pc) (n : ℕ) :
    (s.padded n).threads[k]? = some pc :=
  (List.getElem?_append_left (List.getElem?_eq_some_iff.1 hk).1).trans hk

theorem padded_setThread {s : NotifiedAuth} {k : ℕ} {pc : CallPc} (hk : s.threads[k]? = some pc)
    (n : ℕ) (pc' : CallPc) : (s.padded n).setThread k pc' = (s.setThread k pc').padded n := by
  have hlt := (List.getElem?_eq_some_iff.1 hk).1
  simp only [padded, Callers.setThread, setThread, List.set_append_left k _ hlt]

theorem asleep_mem_padded {s : NotifiedAuth} {n : ℕ} :
    .asleep ∈ (s.padded n).threads ↔ .asleep ∈ s.threads := by
  simp [padded, List.mem_replicate]

/-- A step of the calls is a run of the threads, one of which may get its call by it. -/
theorem exists_run (hsql : sql.Escapes) {s s' : NotifiedAuth} {m : AuthServer.Ledger} {l : Label}
    (hlinearized : AuthServer.Linearized sql users₀ s.server m) (hs : Threaded s)
    (h : s.step sql poolSize l = some s') (threadCount n : ℕ) :
    ∃ n' ls, s.threads.length + n' = s'.threads.length + n ∧
      (Callers.lts poolSize threadCount).run (s.padded n') ls = some (s'.padded n) := by
  have hthread : ∀ {k pc}, s.threads[k]? = some pc → (s.padded n).pool.phase = .ready ∧
      (s.padded n).threads[k]? = some pc := fun hk => ⟨hs.ready_of hk, padded_get hk n⟩
  cases step_cases h with
  | pool op server hphase hserver =>
    obtain ⟨pool, hpool, rfl⟩ := Option.map_eq_some_iff.1 hserver
    refine ⟨n, [.pool op], rfl, LTS.run_singleton ?_⟩
    show Callers.step poolSize (s.padded n) (.pool op) = _
    simp only [Callers.step, padded, hphase, if_false, hpool, Option.map_some]
  | call op server hserver =>
    obtain ⟨hready, ⟨⟩⟩ := Option.ite_none_right_eq_some.1 hserver
    by_cases hauth : op.1.IsAuth
    · -- the first of the other threads enters
      obtain ⟨p, hroute, -⟩ := DbProgram.exists_route_of_isAuth hsql hauth
      refine ⟨n + 1, [.thread s.threads.length], by simp; omega, LTS.run_singleton ?_⟩
      show Callers.step poolSize (s.padded (n + 1)) (.thread s.threads.length) = _
      simp [Callers.step, Callers.threadStep, Callers.setThread, padded, hready, hroute, beginPc,
        List.replicate_succ]
    · rw [DbProgram.route_of_not_isAuth sql hauth]
      refine ⟨n + 1, [], by simp; omega, ?_⟩
      simp [LTS.run, padded, beginPc, List.replicate_succ]
  | sleep k pc hk hpc hempty =>
    obtain ⟨hready, hget⟩ := hthread hk
    have hqueue : (s.padded n).pool.available = [] := hempty
    refine ⟨n, [.thread k], by simp [setThread], LTS.run_singleton ?_⟩
    show Callers.step poolSize (s.padded n) (.thread k) = _
    rw [← padded_setThread hk]
    rcases hpc with rfl | rfl <;>
      simp [Callers.step, Callers.threadStep, Callers.lockStep, hready, hget, hqueue]
  | acquire k pc server hk hpc hqueue hserver =>
    obtain ⟨hready, hget⟩ := hthread hk
    have hqueue : (s.padded n).pool.available ≠ [] := hqueue
    have hpool : (s.padded n).pool.step poolSize (.lease (.acquire k)) = some server.pool :=
      (hs.acquire hlinearized hk hpc hserver).1
    have hset := padded_setThread (s := { s with server }) hk n .holding
    refine ⟨n, [.thread k], by simp [setThread], LTS.run_singleton ?_⟩
    show Callers.step poolSize (s.padded n) (.thread k) = _
    rw [← hset]
    rcases hpc with rfl | rfl <;>
      simp only [Callers.step, Callers.threadStep, Callers.lockStep, hready, hget, hqueue, hpool,
        if_true, if_false, Option.map_some] <;> rfl
  | talk k server hk hreleases hserver =>
    have hpool := (hs.talk hlinearized hk hreleases hserver).1
    exact ⟨n, [], rfl, by simp only [LTS.run, padded, hpool]⟩
  | release k server hk hreleases hserver =>
    obtain ⟨hready, hget⟩ := hthread hk
    have hpool : (s.padded n).pool.step poolSize (.lease (.destroy k)) = some server.pool :=
      (hs.release hlinearized hk hreleases hserver).1
    have hset := padded_setThread (s := { s with server }) hk n .notify
    refine ⟨n, [.thread k], by simp [setThread], LTS.run_singleton ?_⟩
    show Callers.step poolSize (s.padded n) (.thread k) = _
    rw [← hset]
    simp only [Callers.step, Callers.threadStep, hready, hget, hpool, if_true, Option.map_some]
    rfl
  | notify k hk hnobody =>
    obtain ⟨hready, hget⟩ := hthread hk
    have hnobody : .asleep ∉ (s.padded n).threads := fun hmem => hnobody (asleep_mem_padded.1 hmem)
    refine ⟨n, [.notify k none], by simp [setThread], LTS.run_singleton ?_⟩
    show Callers.step poolSize (s.padded n) (.notify k none) = _
    rw [← padded_setThread hk]
    simp only [Callers.step, Callers.notifyStep, hready, hget, hnobody, if_true, if_false]
  | notifyOne k j hk hj =>
    obtain ⟨hready, hget⟩ := hthread hk
    obtain ⟨-, hgetj⟩ := hthread hj
    have hj' := asleep_of_notifies hk hj
    refine ⟨n, [.notify k (some j)], by simp [setThread], LTS.run_singleton ?_⟩
    show Callers.step poolSize (s.padded n) (.notify k (some j)) = _
    rw [← padded_setThread hj', ← padded_setThread hk]
    simp only [Callers.step, Callers.notifyStep, hready, hget, hgetj, if_true]
  | wake k hk =>
    obtain ⟨hready, hget⟩ := hthread hk
    refine ⟨n, [.wake k], by simp [setThread], LTS.run_singleton ?_⟩
    show Callers.step poolSize (s.padded n) (.wake k) = _
    rw [← padded_setThread hk]
    simp only [Callers.step, hready, hget, if_true]
  | returns k server hk hserver =>
    obtain ⟨op, response, hcall, rfl⟩ := AuthServer.returns_cases hserver
    exact ⟨n, [], rfl, rfl⟩

/-- **A run of the calls is a run of the threads of the pool.** -/
theorem reachable_callers (hsql : sql.Escapes) {s : NotifiedAuth}
    (h : (lts sql poolSize users₀).Reachable s) (n : ℕ) :
    (Callers.lts poolSize (s.threads.length + n)).Reachable (s.padded n) := by
  refine LTS.ReachableIf.invariant (I := fun s : NotifiedAuth => ∀ n,
    (Callers.lts poolSize (s.threads.length + n)).Reachable (s.padded n)) h ?_ ?_ n
  · intro n
    rw [show (lts sql poolSize users₀).init.threads.length + n = n from Nat.zero_add n]
    exact .init
  · intro s l s' hreach ih _ hstep n
    obtain ⟨m, hlinearized⟩ := AuthServer.exists_linearized hsql (reachable_server hreach)
    have hs := threaded_of_reachable hsql hreach
    obtain ⟨n', ls, hlength, hrun⟩ := exists_run hsql hlinearized hs hstep
      (s'.threads.length + n) n
    have hn' := ih n'
    rw [hlength] at hn'
    exact hn'.run (LTS.allowed_true _ _) hrun

/-- No wakeup is lost. -/
theorem waiting_of_reachable (hsql : sql.Escapes) {s : NotifiedAuth}
    (h : (lts sql poolSize users₀).Reachable s) : s.callers.Waiting := by
  have hwaiting := Callers.waiting_of_reachable (reachable_callers hsql h 0)
  rw [padded, List.replicate_zero, List.append_nil] at hwaiting
  exact hwaiting

/-! ### All calls return -/

/-- A step by which a call waits on: it wakes without a notification, or finds the queue empty when
it has been woken, and sleeps again. -/
def Idle (s : NotifiedAuth) : Label → Prop
  | .wake _ => True
  | .step k => s.threads[k]? = some .woken ∧ s.server.pool.available = []
  | _ => False

/-- Any other step of the calls. -/
def Own (s : NotifiedAuth) : Label → Prop
  | .step k => ¬ s.Idle (.step k)
  | .notify _ _ | .returns _ => True
  | _ => False

/-- No call is under way. -/
def AllReturned (s : NotifiedAuth) : Prop := ∀ c ∈ s.server.calls, c = none

/-- The steps that are left to the calls. -/
def rank (s : NotifiedAuth) : ℕ :=
  2 * s.server.rank + s.threads.count .enter + s.threads.count .notify

theorem rank_setThread {s : NotifiedAuth} {k : ℕ} {pc : CallPc} (hk : s.threads[k]? = some pc)
    (pc' : CallPc) (server : AuthServer) :
    rank ({ s with server }.setThread k pc') + 2 * s.server.rank +
        ((if pc = .enter then 1 else 0) + if pc = .notify then 1 else 0) =
      s.rank + 2 * server.rank +
        ((if pc' = .enter then 1 else 0) + if pc' = .notify then 1 else 0) := by
  have henter := Callers.count_setThread (s := s.callers) hk pc' .enter
  have hnotify := Callers.count_setThread (s := s.callers) hk pc' .notify
  simp only [callers, Callers.setThread] at henter hnotify
  simp only [rank, setThread]
  omega

/-- A thread goes on, and no program does. -/
theorem rank_thread {s : NotifiedAuth} {k : ℕ} {pc : CallPc} (hk : s.threads[k]? = some pc)
    (pc' : CallPc) : (s.setThread k pc').rank +
        ((if pc = .enter then 1 else 0) + if pc = .notify then 1 else 0) =
      s.rank + ((if pc' = .enter then 1 else 0) + if pc' = .notify then 1 else 0) := by
  have hrank : (s.setThread k pc').rank + 2 * s.server.rank + _ = s.rank + 2 * s.server.rank + _ :=
    rank_setThread hk pc' s.server
  omega

/-- A step of the calls leaves less to do, unless a call waits on. -/
theorem rank_lt (hsql : sql.Escapes) {s s' : NotifiedAuth} {l : Label}
    (h : (lts sql poolSize users₀).Reachable s) (hl : s.Own l)
    (hstep : s.step sql poolSize l = some s') : s'.rank < s.rank := by
  obtain ⟨m, hlinearized⟩ := AuthServer.exists_linearized hsql (reachable_server h)
  cases step_cases hstep with
  | pool _ _ _ _ => exact hl.elim
  | call _ _ _ => exact hl.elim
  | sleep k pc hk hpc hempty =>
    have hrank := rank_thread hk .asleep
    rcases hpc with rfl | rfl
    · simp only [reduceCtorEq, if_true, if_false] at hrank
      omega
    · exact absurd ⟨hk, hempty⟩ hl
  | acquire k pc server hk hpc _ hserver =>
    have hlt := AuthServer.rank_step hlinearized hserver
    have hrank := rank_setThread hk .holding server
    rcases hpc with rfl | rfl <;> simp only [reduceCtorEq, if_true, if_false] at hrank <;> omega
  | talk k server hk _ hserver =>
    have hlt := AuthServer.rank_step hlinearized hserver
    simp only [rank]
    omega
  | release k server hk _ hserver =>
    -- the notification is one more step, and counts half
    have hlt := AuthServer.rank_step hlinearized hserver
    have hrank := rank_setThread hk .notify server
    simp only [reduceCtorEq, if_true, if_false] at hrank
    omega
  | notify k hk _ =>
    have hrank := rank_thread hk .idle
    simp only [reduceCtorEq, if_true, if_false] at hrank
    omega
  | notifyOne k j hk hj =>
    have hrank := rank_thread hk .idle
    have hrank' := rank_thread (asleep_of_notifies hk hj) .woken
    simp only [reduceCtorEq, if_true, if_false] at hrank hrank'
    omega
  | wake _ _ => exact hl.elim
  | returns k server hk hserver =>
    have hlt := AuthServer.rank_returns hserver
    simp only [rank]
    omega

theorem rank_idle {s s' : NotifiedAuth} {l : Label} (hl : s.Idle l)
    (hstep : s.step sql poolSize l = some s') : s'.rank = s.rank := by
  have hsame : ∀ {k pc pc'}, s.threads[k]? = some pc → pc = .asleep ∨ pc = .woken →
      pc' = .asleep ∨ pc' = .woken → (s.setThread k pc').rank = s.rank := by
    intro k pc pc' hk hpc hpc'
    have hrank := rank_thread hk pc'
    rcases hpc with rfl | rfl <;> rcases hpc' with rfl | rfl <;>
      simpa only [reduceCtorEq, if_false, Nat.add_zero] using hrank
  cases step_cases hstep with
  | sleep k pc hk hpc _ =>
    obtain ⟨hwoken, -⟩ := hl
    rw [hwoken] at hk
    cases hk
    exact hsame hwoken (.inr rfl) (.inl rfl)
  | acquire _ _ _ _ _ hqueue _ => exact absurd hl.2 hqueue
  | talk k _ hk _ _ =>
    obtain ⟨hwoken, -⟩ := hl
    rw [hwoken] at hk
    cases hk
  | release k _ hk _ _ =>
    obtain ⟨hwoken, -⟩ := hl
    rw [hwoken] at hk
    cases hk
  | wake k hk => exact hsame hk (.inl rfl) (.inr rfl)
  | _ => exact hl.elim

/-- `notify_one` waits for nobody. -/
theorem exists_notify (sql : Sql) (poolSize : ℕ) {s : NotifiedAuth} {k : ℕ}
    (hk : s.threads[k]? = some .notify) :
    ∃ woken s', s.step sql poolSize (.notify k woken) = some s' := by
  by_cases hasleep : .asleep ∈ s.threads
  · obtain ⟨j, hj⟩ := List.getElem?_of_mem hasleep
    refine ⟨some j, (s.setThread k .idle).setThread j .woken, ?_⟩
    simp only [step, hk, if_true, Callers.notifyStep, callers, hj, Option.map_some]
    rfl
  · refine ⟨none, s.setThread k .idle, ?_⟩
    simp only [step, hk, if_true, Callers.notifyStep, callers, hasleep, if_false, Option.map_some]
    rfl

/-- A call that has been woken takes the handle that is there. -/
theorem exists_acquire {s : NotifiedAuth} (hs : Threaded s) (hqueue : s.server.pool.available ≠ [])
    (hnone : ∀ k, k ∉ s.server.pool.leases) {k : ℕ} {pc : CallPc} (hk : s.threads[k]? = some pc)
    (hpc : pc = .enter ∨ pc = .woken) :
    ∃ l s', s.Own l ∧ s.step sql poolSize l = some s' := by
  obtain ⟨c, hcall, hc⟩ := hs.exists_call hk
  obtain ⟨op, next, rfl⟩ := exists_acquire_of_fits hc (hpc.imp_right .inr)
  obtain ⟨server, hserver⟩ := AuthServer.exists_step_of_acquire sql poolSize (hs.ready_of hk) hcall
    (hnone k) hqueue
  refine ⟨.step k, { s with server }.setThread k .holding, fun hidle => hqueue hidle.2, ?_⟩
  rcases hpc with rfl | rfl <;> simp [step, hk, hqueue, callStep, hserver]

/-- The holder of a lease waits for nothing. -/
theorem exists_holder (hsql : sql.Escapes) {s : NotifiedAuth}
    (h : (lts sql poolSize users₀).Reachable s) (hready : s.server.pool.phase = .ready) {k : ℕ}
    (hmem : k ∈ s.server.pool.leases) : ∃ l s', s.Own l ∧ s.step sql poolSize l = some s' := by
  have hleased := AuthServer.leased_of_reachable hsql (reachable_server h)
  obtain ⟨-, op, p, hcall, hp⟩ := hleased k hmem
  obtain ⟨pc, hk, hfits⟩ := (threaded_of_reachable hsql h).exists_thread hcall
  obtain rfl : pc = .holding := by cases p <;> first | exact hfits | cases hp
  obtain ⟨server, hstep⟩ := AuthServer.exists_step_of_holds sql poolSize hleased hready hcall hp
    hmem
  have hown : s.Own (.step k) := by
    rintro ⟨hwoken, -⟩
    rw [hk] at hwoken
    cases hwoken
  cases hreleases : s.releases k with
  | true =>
    refine ⟨.step k, { s with server }.setThread k .notify, hown, ?_⟩
    simp [step, hk, hreleases, callStep, hstep]
  | false =>
    refine ⟨.step k, { s with server }, hown, ?_⟩
    simp [step, hk, hreleases, hstep]

/-- No wakeup is lost: with a handle there and no notification to come, a sleeper has company. -/
theorem exists_woken (hsql : sql.Escapes) {s : NotifiedAuth}
    (h : (lts sql poolSize users₀).Reachable s) (hqueue : s.server.pool.available ≠ [])
    (hnotify : .notify ∉ s.threads) (hasleep : .asleep ∈ s.threads) :
    ∃ k : ℕ, s.threads[k]? = some .woken := by
  have hpos := List.length_pos_iff.2 hqueue
  have hsleepers := List.count_pos_iff.2 hasleep
  have hnone := List.count_eq_zero_of_not_mem hnotify
  have hwake := (waiting_of_reachable hsql h).wake
  simp only [callers] at hwake
  have hwoken : 0 < s.threads.count .woken := by omega
  exact List.getElem?_of_mem (List.count_pos_iff.1 hwoken)

/-- While a call has not returned, a call goes on. -/
theorem exists_own (hsql : sql.Escapes) (hpos : 1 ≤ poolSize) {s : NotifiedAuth}
    (h : (lts sql poolSize users₀).Reachable s) (hready : s.server.pool.phase = .ready)
    (hwork : ¬ s.AllReturned) : ∃ l s', s.Own l ∧ s.step sql poolSize l = some s' := by
  have hserver := reachable_server h
  have hs := threaded_of_reachable hsql h
  by_cases hnotify : .notify ∈ s.threads
  · obtain ⟨k, hk⟩ := List.getElem?_of_mem hnotify
    obtain ⟨woken, s', hstep⟩ := exists_notify sql poolSize hk
    exact ⟨.notify k woken, s', trivial, hstep⟩
  by_cases hleases : ∃ k, k ∈ s.server.pool.leases
  · obtain ⟨k, hmem⟩ := hleases
    exact exists_holder hsql h hready hmem
  · rw [not_exists] at hleases
    have hqueue := AuthServer.exists_available hpos hserver hready hleases
    obtain ⟨c, hc⟩ := not_forall.1 hwork
    rw [Classical.not_imp] at hc
    obtain ⟨k, hcall⟩ := List.getElem?_of_mem hc.1
    obtain ⟨⟨op, p⟩, rfl⟩ := Option.ne_none_iff_exists'.1 hc.2
    obtain ⟨pc, hk, hfits⟩ := hs.exists_thread hcall
    cases p with
    | done response =>
      rcases hfits with rfl | rfl
      · exact ⟨.returns k, { s with server := s.server.setCall k none }, trivial, by
          simp only [step, hk, if_true, AuthServer.step, hcall, Option.map_some]⟩
      · exact absurd (List.mem_of_getElem? hk) hnotify
    | acquire next =>
      rcases hfits with rfl | rfl | rfl
      · exact exists_acquire hs hqueue hleases hk (.inl rfl)
      · obtain ⟨j, hj⟩ := exists_woken hsql h hqueue hnotify (List.mem_of_getElem? hk)
        exact exists_acquire hs hqueue hleases hj (.inr rfl)
      · exact exists_acquire hs hqueue hleases hk (.inr rfl)
    | _ =>
      -- the connection of its lease is not there
      obtain ⟨m, hlinearized⟩ := AuthServer.exists_linearized hsql hserver
      have hheld := DatabasePool.held_eq_none (hleases k)
      cases (hlinearized.stage k op _ hcall).2 with
      | leased _ db hdb =>
        rw [hheld] at hdb
        cases hdb
      | served _ db hdb =>
        rw [hheld] at hdb
        cases hdb

theorem phase_eq {s s' : NotifiedAuth} {l : Label} (hsql : sql.Escapes)
    (h : (lts sql poolSize users₀).Reachable s) (hready : s.server.pool.phase = .ready)
    (hstep : s.step sql poolSize l = some s') : s'.server.pool.phase = .ready := by
  obtain ⟨m, hlinearized⟩ := AuthServer.exists_linearized hsql (reachable_server h)
  have hserver : ∀ {k server}, s.server.step sql poolSize (.step k) = some server →
      server.pool.phase = .ready := by
    intro k server hserver
    obtain ⟨op, p, p', -, -, hcase⟩ := AuthServer.call_cases hlinearized hserver
    exact hcase.phase_eq.trans hready
  cases step_cases hstep with
  | pool _ _ hphase _ => exact absurd hready hphase
  | call op server hcall =>
    obtain ⟨-, ⟨⟩⟩ := Option.ite_none_right_eq_some.1 hcall
    exact hready
  | acquire k pc server _ _ _ hnext => exact hserver hnext
  | talk k server _ _ hnext => exact hserver hnext
  | release k server _ _ hnext => exact hserver hnext
  | returns k server _ hreturns =>
    obtain ⟨op, response, hcall, rfl⟩ := AuthServer.returns_cases hreturns
    exact hready
  | _ => exact hready

/-- **Every request is answered.**  Once no more requests come, all calls of `route` that are under
way return, whatever the order of their steps, whatever goes wrong in MySQL and however often a call
wakes without a handle: no call waits for ever for a lease, as long as the pool has a handle at
all. -/
theorem all_return (hsql : sql.Escapes) (hpos : 1 ≤ poolSize) {s : NotifiedAuth}
    (h : (lts sql poolSize users₀).Reachable s) (hready : s.server.pool.phase = .ready) :
    (lts sql poolSize users₀).InevitableAmid Own Own Idle AllReturned s := by
  refine LTS.inevitableAmid_of_rank
    (fun s => (lts sql poolSize users₀).Reachable s ∧ s.server.pool.phase = .ready) rank ?_ ?_ ?_
    ⟨h, hready⟩
  · rintro s l s' ⟨h, hready⟩ hl hstep
    exact ⟨⟨.step h trivial hstep, phase_eq hsql h hready hstep⟩, (rank_idle hl hstep).le⟩
  · rintro s l s' ⟨h, hready⟩ hl hstep -
    exact .inr ⟨⟨.step h trivial hstep, phase_eq hsql h hready hstep⟩, rank_lt hsql h hl hstep⟩
  · rintro s ⟨h, hready⟩ hwork
    obtain ⟨l, s', hl, hstep⟩ := exists_own hsql hpos h hready hwork
    have hlt := rank_lt hsql h hl hstep
    exact ⟨l, s', hl, hstep, fun heq => Nat.lt_irrefl _ (heq ▸ hlt)⟩

/-- A pool of one handle, with two requests: the second sleeps while the first one has the lease. -/
def waitRun : List Label :=
  [.pool .init, .pool (.connect (.connected 1)), .pool .schemaLease, .pool (.schema true),
    .call (registerRequest, none), .call (loginRequest "secret", none),
    .step 0, .step 1]

theorem all_return_wait : ∃ s, (lts Dialect.sql 1 .empty).Reachable s ∧
    s.threads = [.holding, .asleep] ∧
    (lts Dialect.sql 1 .empty).InevitableAmid Own Own Idle AllReturned s := by
  obtain ⟨s, hrun, hthreads, hready⟩ : ∃ s ∈ (lts Dialect.sql 1 .empty).run
      (lts Dialect.sql 1 .empty).init waitRun,
        s.threads = [.holding, .asleep] ∧ s.server.pool.phase = .ready := by
    decide +kernel
  have h := LTS.reachable_of_run hrun
  exact ⟨s, h, hthreads, all_return Dialect.escapes (Nat.le_refl 1) h hready⟩

end NotifiedAuth

end MiniServer
