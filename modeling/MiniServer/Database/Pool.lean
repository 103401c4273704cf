import Mathlib.Data.Finmap
import MiniServer.LTS.Record

/-!
# The database pool

`DatabasePool` hands its handles out as `Lease` objects, which are moved, assigned and destroyed by
any number of threads.  A section of `mutex_` is one step, and so is what a thread does to the
objects of its own between two sections; a move assignment that gives a handle back has two steps,
for another thread may acquire this handle before the target takes over the new one.

The abstract view is one function, `o`, from the handles to their owners (`Owned`): the queue, the
lease in `init`, or one `Lease` object.  That every step keeps such a function is that no handle is
lost, in two places, or held twice.
-/

namespace MiniServer

/-- A `MYSQL*`. -/
abbrev Handle := ℕ

/-- The address of a `Lease` object. -/
abbrev LeaseId := ℕ

/-- `class DatabasePool::Lease`, with what its thread is doing with it.  Its two pointers are both
null or both set. -/
inductive Lease where
  | live (db : Option Handle)
  /-- The target of a move assignment, behind the release of its handle. -/
  | assigning (src : LeaseId)
  /-- The source of that assignment. -/
  | moving (db : Option Handle)
  deriving DecidableEq, Repr

/-- The handle a lease holds. -/
def Lease.handle : Lease → Option Handle
  | .live db => db
  | .assigning _ => none
  | .moving db => db

/-- How far the pool is. -/
inductive PoolPhase where
  | new
  /-- In the loop of `init`, with so many handles connected. -/
  | connect (i : ℕ)
  /-- `init` has the lease that creates the table. -/
  | schema (db : Handle)
  /-- `init` has returned `true`. -/
  | ready
  /-- `init` has returned `false`. -/
  | failed
  | destroyed
  deriving DecidableEq, Repr

/-- The outcome of `mysql_init` and `mysql_real_connect`. -/
inductive Connect where
  | noHandle
  | refused (db : Handle)
  | connected (db : Handle)
  deriving DecidableEq, Repr

/-- `class DatabasePool` with its leases. -/
structure DatabasePool where
  all : List Handle := []
  available : List Handle := []
  leases : Finmap (fun _ : LeaseId => Lease) := ∅
  phase : PoolPhase := .new

namespace DatabasePool

/-- The steps of `init` and of the destructor. -/
inductive PoolOp where
  | init
  /-- A round of the loop of `init`. -/
  | connect (r : Connect)
  /-- The `acquire` in `init`. -/
  | schemaLease
  /-- The outcome of `CREATE TABLE`; the lease is destroyed on return. -/
  | schema (ok : Bool)
  /-- `~DatabasePool()`. -/
  | close
  deriving DecidableEq, Repr

/-- The steps with `Lease` objects. -/
inductive LeaseOp where
  /-- `Lease()`. -/
  | construct (l : LeaseId)
  /-- `Lease l = acquire()`. -/
  | acquire (l : LeaseId)
  /-- `Lease l(std::move(src))`. -/
  | move (l src : LeaseId)
  /-- `l = std::move(src)`, up to the end of `release`. -/
  | assign (l src : LeaseId)
  /-- The rest of an assignment to `l`. -/
  | takeOver (l : LeaseId)
  /-- `~Lease()`. -/
  | destroy (l : LeaseId)
  deriving DecidableEq, Repr

/-- The steps of the threads. -/
inductive Label where
  | pool (op : PoolOp)
  | lease (op : LeaseOp)
  deriving DecidableEq, Repr

/-- The section of `DatabasePool::release`. -/
def release (s : DatabasePool) (db : Handle) : DatabasePool :=
  { s with available := s.available ++ [db] }

/-- The section of `DatabasePool::acquire`: the handle, `none` while the queue is empty. -/
def acquire (s : DatabasePool) : Option (Handle × DatabasePool) :=
  match s.available with
  | [] => none
  | db :: available => some (db, { s with available })

/-- A lease in a new state. -/
def setLease (s : DatabasePool) (l : LeaseId) (lease : Lease) : DatabasePool :=
  { s with leases := s.leases.insert l lease }

/-- A round of the loop of `init`.  `mysql_init` returns no handle that is in use. -/
def connectStep (s : DatabasePool) (i : ℕ) : Connect → Option DatabasePool
  | .noHandle => some { s with phase := .failed }
  | .refused db => if db ∈ s.all then none else some { s with phase := .failed }
  | .connected db =>
    if db ∈ s.all then none
    else some { s with
      all := s.all ++ [db]
      available := s.available ++ [db]
      phase := .connect (i + 1) }

/-- A step of `init` and of the destructor. -/
def poolStep (poolSize : ℕ) (s : DatabasePool) (op : PoolOp) : Option DatabasePool :=
  match s.phase, op with
  | .new, .init => some { s with phase := .connect 0 }
  | .connect i, .connect r => if i < poolSize then s.connectStep i r else none
  | .connect i, .schemaLease =>
    if i < poolSize then none
    else s.acquire.map fun (db, s) => { s with phase := .schema db }
  | .schema db, .schema ok => some { s.release db with phase := if ok then .ready else .failed }
  | .new, .close | .ready, .close | .failed, .close =>
    if s.leases = ∅ then some { s with phase := .destroyed } else none
  | _, _ => none

/-- A step with `Lease` objects. -/
def leaseStep (s : DatabasePool) : LeaseOp → Option DatabasePool
  | .construct l => if l ∈ s.leases then none else some (s.setLease l (.live none))
  | .acquire l =>
    if l ∈ s.leases then none
    else s.acquire.map fun (db, s) => s.setLease l (.live (some db))
  | .move l src =>
    if l ∈ s.leases then none
    else
      match s.leases.lookup src with
      | some (.live db) => some ((s.setLease src (.live none)).setLease l (.live db))
      | _ => none
  | .assign l src =>
    match s.leases.lookup l, s.leases.lookup src with
    | some (.live old), some (.live db) =>
      if l = src then some s
      else
        let s := match old with
          | some old => s.release old
          | none => s
        some ((s.setLease src (.moving db)).setLease l (.assigning src))
    | _, _ => none
  | .takeOver l =>
    match s.leases.lookup l with
    | some (.assigning src) =>
      match s.leases.lookup src with
      | some (.moving db) => some ((s.setLease src (.live none)).setLease l (.live db))
      | _ => none
    | _ => none
  | .destroy l =>
    match s.leases.lookup l with
    | some (.live (some db)) => some { s.release db with leases := s.leases.erase l }
    | some (.live none) => some { s with leases := s.leases.erase l }
    | _ => none

/-- A step of the pool; the threads use it when `init` has returned `true`. -/
def step (poolSize : ℕ) (s : DatabasePool) : Label → Option DatabasePool
  | .pool op => s.poolStep poolSize op
  | .lease op => if s.phase = .ready then s.leaseStep op else none

/-- The pool from its constructor on. -/
def lts (poolSize : ℕ) : LTS DatabasePool Label where
  init := {}
  step := step poolSize

/-- The handle of a lease. -/
def held (s : DatabasePool) (l : LeaseId) : Option Handle :=
  (s.leases.lookup l).bind Lease.handle

/-! ### One step -/

theorem acquire_eq_some {s s' : DatabasePool} {db : Handle} (h : s.acquire = some (db, s')) :
    ∃ rest, s.available = db :: rest ∧ s' = { s with available := rest } := by
  unfold acquire at h
  split at h
  · cases h
  · rename_i db' rest hqueue
    cases h
    exact ⟨rest, hqueue, rfl⟩

/-- What a step of `init` or of the destructor does. -/
inductive PoolCase (poolSize : ℕ) (s : DatabasePool) : PoolOp → DatabasePool → Prop
  | init : s.phase = .new → PoolCase poolSize s .init { s with phase := .connect 0 }
  | noHandle (i : ℕ) : s.phase = .connect i →
      PoolCase poolSize s (.connect .noHandle) { s with phase := .failed }
  | refused (i : ℕ) (db : Handle) : s.phase = .connect i → db ∉ s.all →
      PoolCase poolSize s (.connect (.refused db)) { s with phase := .failed }
  | connected (i : ℕ) (db : Handle) : s.phase = .connect i → i < poolSize → db ∉ s.all →
      PoolCase poolSize s (.connect (.connected db)) { s with
        all := s.all ++ [db]
        available := s.available ++ [db]
        phase := .connect (i + 1) }
  | schemaLease (i : ℕ) (db : Handle) (rest : List Handle) : s.phase = .connect i →
      poolSize ≤ i → s.available = db :: rest →
        PoolCase poolSize s .schemaLease { s with available := rest, phase := .schema db }
  | schema (db : Handle) (ok : Bool) : s.phase = .schema db →
      PoolCase poolSize s (.schema ok)
        { s.release db with phase := if ok then .ready else .failed }
  | close : s.phase = .new ∨ s.phase = .ready ∨ s.phase = .failed → s.leases = ∅ →
      PoolCase poolSize s .close { s with phase := .destroyed }

theorem poolStep_cases {poolSize : ℕ} {s s' : DatabasePool} {op : PoolOp}
    (h : s.poolStep poolSize op = some s') : PoolCase poolSize s op s' := by
  unfold poolStep at h
  split at h
  · rename_i hphase
    cases h
    exact .init hphase
  · rename_i i r hphase
    split_ifs at h with hi
    cases r with
    | noHandle =>
      cases h
      exact .noHandle i hphase
    | refused db =>
      simp only [connectStep] at h
      split_ifs at h with hmem
      cases h
      exact .refused i db hphase hmem
    | connected db =>
      simp only [connectStep] at h
      split_ifs at h with hmem
      cases h
      exact .connected i db hphase hi hmem
  · rename_i i hphase
    split_ifs at h with hi
    obtain ⟨⟨db, s₁⟩, hacquire, rfl⟩ := Option.map_eq_some_iff.1 h
    obtain ⟨rest, hqueue, rfl⟩ := acquire_eq_some hacquire
    exact .schemaLease i db rest hphase (Nat.le_of_not_lt hi) hqueue
  · rename_i db ok hphase
    cases h
    exact .schema db ok hphase
  · rename_i hphase
    split_ifs at h with hleases
    cases h
    exact .close (.inl hphase) hleases
  · rename_i hphase
    split_ifs at h with hleases
    cases h
    exact .close (.inr (.inl hphase)) hleases
  · rename_i hphase
    split_ifs at h with hleases
    cases h
    exact .close (.inr (.inr hphase)) hleases
  · cases h

/-- What a step with `Lease` objects does. -/
inductive LeaseCase (s : DatabasePool) : LeaseOp → DatabasePool → Prop
  | construct (l : LeaseId) : l ∉ s.leases →
      LeaseCase s (.construct l) (s.setLease l (.live none))
  | acquire (l : LeaseId) (db : Handle) (rest : List Handle) : l ∉ s.leases →
      s.available = db :: rest →
        LeaseCase s (.acquire l) ({ s with available := rest }.setLease l (.live (some db)))
  | move (l src : LeaseId) (db : Option Handle) : l ∉ s.leases →
      s.leases.lookup src = some (.live db) →
        LeaseCase s (.move l src) ((s.setLease src (.live none)).setLease l (.live db))
  | assignSelf (l : LeaseId) : LeaseCase s (.assign l l) s
  | assignLive (l src : LeaseId) (old : Handle) (db : Option Handle) :
      s.leases.lookup l = some (.live (some old)) → s.leases.lookup src = some (.live db) →
        LeaseCase s (.assign l src)
          (((s.release old).setLease src (.moving db)).setLease l (.assigning src))
  | assignEmpty (l src : LeaseId) (db : Option Handle) :
      s.leases.lookup l = some (.live none) → s.leases.lookup src = some (.live db) →
        LeaseCase s (.assign l src) ((s.setLease src (.moving db)).setLease l (.assigning src))
  | takeOver (l src : LeaseId) (db : Option Handle) : s.leases.lookup l = some (.assigning src) →
      s.leases.lookup src = some (.moving db) →
        LeaseCase s (.takeOver l) ((s.setLease src (.live none)).setLease l (.live db))
  | destroyLive (l : LeaseId) (db : Handle) : s.leases.lookup l = some (.live (some db)) →
      LeaseCase s (.destroy l) { s.release db with leases := s.leases.erase l }
  | destroyEmpty (l : LeaseId) : s.leases.lookup l = some (.live none) →
      LeaseCase s (.destroy l) { s with leases := s.leases.erase l }

theorem leaseStep_cases {s s' : DatabasePool} {op : LeaseOp} (h : s.leaseStep op = some s') :
    LeaseCase s op s' := by
  cases op with
  | construct l =>
    simp only [leaseStep] at h
    split_ifs at h with hl
    cases h
    exact .construct l hl
  | acquire l =>
    simp only [leaseStep] at h
    split_ifs at h with hl
    obtain ⟨⟨db, s₁⟩, hacquire, rfl⟩ := Option.map_eq_some_iff.1 h
    obtain ⟨rest, hqueue, rfl⟩ := acquire_eq_some hacquire
    exact .acquire l db rest hl hqueue
  | move l src =>
    simp only [leaseStep] at h
    split_ifs at h with hl
    split at h
    · rename_i db hsrc
      cases h
      exact .move l src db hl hsrc
    · cases h
  | assign l src =>
    simp only [leaseStep] at h
    split at h
    · rename_i old db hl hsrc
      split_ifs at h with hself
      · cases h
        subst hself
        exact .assignSelf l
      · cases old with
        | some old =>
          cases h
          exact .assignLive l src old db hl hsrc
        | none =>
          cases h
          exact .assignEmpty l src db hl hsrc
    · cases h
  | takeOver l =>
    simp only [leaseStep] at h
    split at h
    · rename_i src hl
      split at h
      · rename_i db hsrc
        cases h
        exact .takeOver l src db hl hsrc
      · cases h
    · cases h
  | destroy l =>
    simp only [leaseStep] at h
    split at h
    · rename_i db hl
      cases h
      exact .destroyLive l db hl
    · rename_i hl
      cases h
      exact .destroyEmpty l hl
    · cases h

/-! ### Who owns a handle -/

/-- The owner of a handle. -/
inductive Owner where
  | queue
  | init
  | lease (l : LeaseId)
  deriving DecidableEq, Repr

/-- `o` gives every handle of the pool its one owner. -/
structure Owned (s : DatabasePool) (o : Handle → Option Owner) : Prop where
  nodup : s.available.Nodup
  queue : ∀ db, db ∈ s.available ↔ o db = some .queue
  lease : ∀ l db, s.held l = some db ↔ o db = some (.lease l)
  init : ∀ db, s.phase = .schema db ↔ o db = some .init
  all : ∀ db, db ∈ s.all ↔ (o db).isSome = true

theorem held_eq {s : DatabasePool} {l : LeaseId} {lease : Lease}
    (h : s.leases.lookup l = some lease) : s.held l = lease.handle := by
  rw [held, h]
  rfl

theorem held_eq_none {s : DatabasePool} {l : LeaseId} (h : l ∉ s.leases) : s.held l = none := by
  rw [held, Finmap.lookup_eq_none.2 h]
  rfl

theorem held_setLease (s : DatabasePool) (l : LeaseId) (lease : Lease) (l' : LeaseId) :
    (s.setLease l lease).held l' = if l' = l then lease.handle else s.held l' := by
  unfold held setLease
  split_ifs with hl
  · subst hl
    rw [Finmap.lookup_insert]
    rfl
  · rw [Finmap.lookup_insert_of_ne _ hl]

theorem held_erase (s : DatabasePool) (l l' : LeaseId) :
    held { s with leases := s.leases.erase l } l' = if l' = l then none else s.held l' := by
  unfold held
  split_ifs with hl
  · subst hl
    rw [Finmap.lookup_erase]
    rfl
  · rw [Finmap.lookup_erase_ne hl]

/-- The owners when one handle has changed hands. -/
def transfer (o : Handle → Option Owner) (db : Handle) (owner : Owner) : Handle → Option Owner :=
  fun db' => if db' = db then some owner else o db'

namespace Owned

variable {s s' : DatabasePool} {o : Handle → Option Owner}

theorem new : Owned {} fun _ => none where
  nodup := List.nodup_nil
  queue _ := ⟨nofun, nofun⟩
  lease _ _ := ⟨nofun, nofun⟩
  init _ := ⟨nofun, nofun⟩
  all _ := ⟨nofun, nofun⟩

/-- A step that moves no handle. -/
theorem same (h : Owned s o) (hall : s'.all = s.all) (havailable : s'.available = s.available)
    (hheld : ∀ l, s'.held l = s.held l)
    (hphase : ∀ db, s'.phase = .schema db ↔ s.phase = .schema db) : Owned s' o where
  nodup := havailable ▸ h.nodup
  queue db := by rw [havailable, h.queue]
  lease l db := by rw [hheld, h.lease]
  init db := by rw [hphase, h.init]
  all db := by rw [hall, h.all]

/-- A step of `init` that has no lease before it and after it. -/
theorem rephase {phase : PoolPhase} (h : Owned s o) (hold : ∀ db, s.phase ≠ .schema db)
    (hnew : ∀ db, phase ≠ .schema db) : Owned { s with phase } o :=
  h.same rfl rfl (fun _ => rfl) fun db => iff_of_false (hnew db) (hold db)

/-- A handle has one owner. -/
theorem owner_unique (h : Owned s o) {l : LeaseId} {db : Handle} {owner : Owner}
    (howner : o db = some owner) (hne : owner ≠ .lease l) : s.held l ≠ some db := by
  intro hl
  rw [(h.lease l db).1 hl] at howner
  exact hne (Option.some.inj howner).symm

/-- The handle of a lease goes back to the queue. -/
theorem release_lease (h : Owned s o) {l : LeaseId} {db : Handle} (hl : s.held l = some db)
    (hall : s'.all = s.all) (havailable : s'.available = s.available ++ [db])
    (hheld : ∀ l', s'.held l' = if l' = l then none else s.held l')
    (hphase : s'.phase = s.phase) : Owned s' (transfer o db .queue) := by
  obtain ⟨hnodup, hqueue, hlease, hinit, hmem⟩ := h
  have howner := (hlease l db).1 hl
  have hnot : db ∉ s.available := by grind
  constructor
  case nodup =>
    rw [havailable]
    exact List.nodup_append.2 ⟨hnodup, List.nodup_singleton db, by grind⟩
  all_goals grind [transfer]

/-- The handle in front of the queue goes to a lease. -/
theorem acquire_lease (h : Owned s o) {l : LeaseId} {db : Handle} {rest : List Handle}
    (hqueue : s.available = db :: rest) (hl : s.held l = none)
    (hall : s'.all = s.all) (havailable : s'.available = rest)
    (hheld : ∀ l', s'.held l' = if l' = l then some db else s.held l')
    (hphase : s'.phase = s.phase) : Owned s' (transfer o db (.lease l)) := by
  obtain ⟨hnodup, hmem, hlease, hinit, hall'⟩ := h
  rw [hqueue, List.nodup_cons] at hnodup
  have howner := (hmem db).1 (hqueue ▸ List.mem_cons_self)
  constructor
  case nodup => exact havailable ▸ hnodup.2
  all_goals grind [transfer]

/-- The handle of one lease goes to another. -/
theorem hand_over (h : Owned s o) {l src : LeaseId} {db : Handle} (hne : l ≠ src)
    (hl : s.held l = none) (hsrc : s.held src = some db)
    (hall : s'.all = s.all) (havailable : s'.available = s.available)
    (hheld : ∀ l', s'.held l' = if l' = l then some db else if l' = src then none else s.held l')
    (hphase : s'.phase = s.phase) : Owned s' (transfer o db (.lease l)) := by
  obtain ⟨hnodup, hqueue, hlease, hinit, hall'⟩ := h
  have howner := (hlease src db).1 hsrc
  constructor
  case nodup => exact havailable ▸ hnodup
  all_goals grind [transfer]

/-- A handle is new, or goes from the queue to `init` or back. -/
theorem pool_transfer (h : Owned s o) {db : Handle} {owner : Owner}
    (hnodup : s'.available.Nodup) (hqueue : ∀ db', db' ∈ s'.available ↔
      if db' = db then owner = .queue else db' ∈ s.available)
    (hheld : ∀ l, s'.held l = s.held l) (hfree : ∀ l, s.held l ≠ some db)
    (hlease : ∀ l, owner ≠ .lease l)
    (hphase : ∀ db', s'.phase = .schema db' ↔
      if db' = db then owner = .init else s.phase = .schema db')
    (hall : ∀ db', db' ∈ s'.all ↔ db' = db ∨ db' ∈ s.all) : Owned s' (transfer o db owner) := by
  obtain ⟨-, hmem, hlease', hinit, hall'⟩ := h
  constructor
  case nodup => exact hnodup
  all_goals grind [transfer]

/-- A lease takes the two pointers of another one. -/
theorem take_over (h : Owned s o) {l src : LeaseId} {db : Option Handle} (hne : l ≠ src)
    (hl : s.held l = none) (hsrc : s.held src = db) :
    ∃ o', Owned ((s.setLease src (.live none)).setLease l (.live db)) o' := by
  have hheld : ∀ l', ((s.setLease src (.live none)).setLease l (.live db)).held l' =
      if l' = l then db else if l' = src then none else s.held l' := by
    intro l'
    rw [held_setLease, held_setLease]
    rfl
  cases db with
  | some db => exact ⟨_, h.hand_over hne hl hsrc rfl rfl hheld rfl⟩
  | none =>
    refine ⟨o, h.same rfl rfl (fun l' => ?_) fun _ => .rfl⟩
    rw [hheld]
    split_ifs with heq heq'
    · rw [heq, hl]
    · rw [heq', hsrc]
    · rfl

/-- A lease without a handle is constructed, or loses its two null pointers. -/
theorem empty (h : Owned s o) {l : LeaseId} (hl : s.held l = none) (hall : s'.all = s.all)
    (havailable : s'.available = s.available)
    (hheld : ∀ l', s'.held l' = if l' = l then none else s.held l')
    (hphase : s'.phase = s.phase) : Owned s' o := by
  refine h.same hall havailable (fun l' => ?_) fun db => by rw [hphase]
  rw [hheld]
  split_ifs with heq
  · rw [heq, hl]
  · rfl

/-- The source of a move assignment keeps its handle until the target takes over. -/
theorem held_assign {src l : LeaseId} {db : Option Handle} (hsrc : s.held src = db)
    {t : DatabasePool} (ht : t.leases = s.leases) (l' : LeaseId) :
    ((t.setLease src (.moving db)).setLease l (.assigning src)).held l' =
      if l' = l then none else s.held l' := by
  rw [held_setLease, held_setLease, show t.held = s.held by unfold held; rw [ht]]
  split_ifs with heq heq'
  · rfl
  · rw [heq', hsrc]
    rfl
  · rfl

theorem lease_step (h : Owned s o) {op : LeaseOp} (hstep : s.leaseStep op = some s') :
    (∃ o', Owned s' o') ∧ s'.all = s.all ∧ s'.phase = s.phase := by
  cases leaseStep_cases hstep with
  | construct l hl =>
    exact ⟨⟨o, h.empty (held_eq_none hl) rfl rfl (held_setLease s l (.live none)) rfl⟩, rfl, rfl⟩
  | acquire l db rest hl hqueue =>
    have hheld := held_setLease { s with available := rest } l (.live (some db))
    exact ⟨⟨_, h.acquire_lease hqueue (held_eq_none hl) rfl rfl hheld rfl⟩, rfl, rfl⟩
  | move l src db hl hsrc =>
    have hne : l ≠ src := by
      rintro rfl
      rw [Finmap.lookup_eq_none.2 hl] at hsrc
      cases hsrc
    exact ⟨h.take_over hne (held_eq_none hl) (held_eq hsrc), rfl, rfl⟩
  | assignSelf l => exact ⟨⟨o, h⟩, rfl, rfl⟩
  | assignLive l src old db hl hsrc =>
    have hheld := held_assign (l := l) (held_eq hsrc) (t := s.release old) rfl
    exact ⟨⟨_, h.release_lease (held_eq hl) rfl rfl hheld rfl⟩, rfl, rfl⟩
  | assignEmpty l src db hl hsrc =>
    have hheld := held_assign (l := l) (held_eq hsrc) (t := s) rfl
    exact ⟨⟨o, h.empty (held_eq hl) rfl rfl hheld rfl⟩, rfl, rfl⟩
  | takeOver l src db hl hsrc =>
    have hne : l ≠ src := by
      rintro rfl
      rw [hl] at hsrc
      cases hsrc
    exact ⟨h.take_over hne (held_eq hl) (held_eq hsrc), rfl, rfl⟩
  | destroyLive l db hl =>
    exact ⟨⟨_, h.release_lease (held_eq hl) rfl rfl (held_erase s l) rfl⟩, rfl, rfl⟩
  | destroyEmpty l hl =>
    exact ⟨⟨o, h.empty (held_eq hl) rfl rfl (held_erase s l) rfl⟩, rfl, rfl⟩

end Owned

/-! ### What is opened and closed -/

/-- The handles that `mysql_init` returned, and the calls of `mysql_close`. -/
structure Ledger where
  opened : Multiset Handle := 0
  closed : Multiset Handle := 0
  deriving DecidableEq

/-- The ledger after a step. -/
def Ledger.write (m : Ledger) (s : DatabasePool) : Label → Ledger
  | .pool (.connect (.refused db)) => ⟨db ::ₘ m.opened, db ::ₘ m.closed⟩
  | .pool (.connect (.connected db)) => { m with opened := db ::ₘ m.opened }
  | .pool .close => { m with closed := m.closed + s.all }
  | _ => m

/-- The number of handles. -/
def Sized (poolSize : ℕ) (s : DatabasePool) : Prop :=
  match s.phase with
  | .new => s.all = []
  | .connect i => s.all.length = i ∧ i ≤ poolSize
  | .schema _ | .ready => s.all.length = poolSize
  | .failed | .destroyed => True

/-- What is still open is in the pool. -/
def Balanced (s : DatabasePool) (m : Ledger) : Prop :=
  match s.phase with
  | .destroyed => m.closed = m.opened
  | .failed => m.closed + s.all = m.opened
  | _ => m.closed = 0 ∧ s.all = m.opened

/-- The invariant of the pool and its ledger. -/
structure Conserved (poolSize : ℕ) (s : DatabasePool) (m : Ledger) : Prop where
  owned : ∃ o, Owned s o
  nodup : s.all.Nodup
  sized : Sized poolSize s
  opened : m.opened.Nodup
  balanced : Balanced s m

theorem Conserved.init (poolSize : ℕ) : Conserved poolSize {} {} where
  owned := ⟨_, .new⟩
  nodup := List.nodup_nil
  sized := rfl
  opened := Multiset.nodup_zero
  balanced := ⟨rfl, rfl⟩

/-- `init` has connected one more handle. -/
theorem Conserved.connected {poolSize i : ℕ} {s : DatabasePool} {m : Ledger} {db : Handle}
    (h : Conserved poolSize s m) (hphase : s.phase = .connect i) (hi : i < poolSize)
    (hmem : db ∉ s.all) :
    Conserved poolSize { s with
      all := s.all ++ [db]
      available := s.available ++ [db]
      phase := .connect (i + 1) } (m.write s (.pool (.connect (.connected db)))) := by
  obtain ⟨⟨o, howned⟩, hnodup, hsized, hopened, hbalanced⟩ := h
  simp only [Sized, Balanced, hphase] at hsized hbalanced
  obtain ⟨hclosed, hall⟩ := hbalanced
  have hfree : ∀ owner, o db ≠ some owner := by
    intro owner howner
    exact hmem ((howned.all db).2 (by rw [howner]; rfl))
  have hnot : db ∉ s.available := fun havailable => hfree _ ((howned.queue db).1 havailable)
  have hconcat : ∀ {dbs : List Handle}, dbs.Nodup → db ∉ dbs → (dbs ++ [db]).Nodup := by
    intro dbs hdbs hdb
    exact hdbs.append (List.nodup_singleton db) (List.disjoint_singleton.2 hdb)
  refine ⟨⟨transfer o db .queue, howned.pool_transfer (hconcat howned.nodup hnot) ?_
    (fun _ => rfl) ?_ nofun ?_ ?_⟩, hconcat hnodup hmem, ?_, ?_, hclosed, ?_⟩
  · intro db'
    split_ifs with heq <;> simp [heq]
  · exact fun l hl => hfree _ ((howned.lease l db).1 hl)
  · simp [hphase]
  · simp [or_comm]
  · show (s.all ++ [db]).length = i + 1 ∧ i + 1 ≤ poolSize
    rw [List.length_append, List.length_singleton, hsized.1]
    exact ⟨rfl, hi⟩
  · refine Multiset.nodup_cons.2 ⟨?_, hopened⟩
    rw [← hall]
    exact hmem
  · show ((s.all ++ [db] : List Handle) : Multiset Handle) = db ::ₘ m.opened
    rw [← hall, ← Multiset.coe_add, add_comm]
    rfl

/-- The lease of `init` takes the first handle. -/
theorem Conserved.schemaLease {poolSize i : ℕ} {s : DatabasePool} {m : Ledger} {db : Handle}
    {rest : List Handle} (h : Conserved poolSize s m) (hphase : s.phase = .connect i)
    (hi : poolSize ≤ i) (hqueue : s.available = db :: rest) :
    Conserved poolSize { s with available := rest, phase := .schema db } m := by
  obtain ⟨⟨o, howned⟩, hnodup, hsized, hopened, hbalanced⟩ := h
  simp only [Sized, Balanced, hphase] at hsized hbalanced
  have hrest := howned.nodup
  rw [hqueue, List.nodup_cons] at hrest
  have howner := (howned.queue db).1 (hqueue ▸ List.mem_cons_self)
  refine ⟨⟨transfer o db .init, howned.pool_transfer hrest.2 ?_ (fun _ => rfl)
    (fun l => howned.owner_unique howner nofun) nofun ?_ ?_⟩, hnodup, ?_, hopened, hbalanced⟩
  · intro db'
    rw [hqueue]
    split_ifs with heq
    · exact iff_of_false (heq ▸ hrest.1) nofun
    · simp [heq]
  · intro db'
    simp [hphase, eq_comm]
  · intro db'
    refine ⟨.inr, fun hor => hor.elim (fun heq => ?_) id⟩
    rw [heq]
    exact (howned.all db).2 (by rw [howner]; rfl)
  · show s.all.length = poolSize
    omega

/-- What is open is in the pool, before anything was closed. -/
theorem closed_add_all {m : Ledger} {dbs : List Handle} (h : m.closed = 0 ∧ dbs = m.opened) :
    m.closed + dbs = m.opened := by
  obtain ⟨hclosed, hall⟩ := h
  rw [hclosed, zero_add, hall]

/-- The lease of `init` is destroyed on return. -/
theorem Conserved.schema {poolSize : ℕ} {s : DatabasePool} {m : Ledger} {db : Handle}
    (h : Conserved poolSize s m) (hphase : s.phase = .schema db) (ok : Bool) :
    Conserved poolSize { s.release db with phase := if ok then .ready else .failed } m := by
  obtain ⟨⟨o, howned⟩, hnodup, hsized, hopened, hbalanced⟩ := h
  simp only [Sized, Balanced, hphase] at hsized hbalanced
  have howner := (howned.init db).1 hphase
  have hnot : db ∉ s.available := by
    intro hmem
    rw [(howned.queue db).1 hmem] at howner
    cases howner
  refine ⟨⟨transfer o db .queue, howned.pool_transfer
    (howned.nodup.append (List.nodup_singleton db) (List.disjoint_singleton.2 hnot)) ?_
    (fun _ => rfl) (fun l => howned.owner_unique howner nofun) nofun ?_ ?_⟩, hnodup, ?_,
    hopened, ?_⟩
  · intro db'
    show db' ∈ s.available ++ [db] ↔ _
    split_ifs with heq <;> simp [heq]
  · intro db'
    rw [hphase]
    cases ok <;> simp [eq_comm]
  · intro db'
    refine ⟨.inr, fun hor => hor.elim (fun heq => ?_) id⟩
    rw [heq]
    exact (howned.all db).2 (by rw [howner]; rfl)
  · cases ok with
    | true => exact hsized
    | false => exact trivial
  · cases ok with
    | true => exact hbalanced
    | false => exact closed_add_all hbalanced

theorem Conserved.pool_step {poolSize : ℕ} {s s' : DatabasePool} {m : Ledger} {op : PoolOp}
    (h : Conserved poolSize s m) (hstep : s.poolStep poolSize op = some s') :
    Conserved poolSize s' (m.write s (.pool op)) := by
  have hall := h
  obtain ⟨⟨o, howned⟩, hnodup, hsized, hopened, hbalanced⟩ := h
  unfold Sized at hsized
  unfold Balanced at hbalanced
  cases poolStep_cases hstep with
  | init hphase =>
    rw [hphase] at hsized hbalanced
    refine ⟨⟨o, howned.rephase (by simp [hphase]) nofun⟩, hnodup, ?_, hopened, hbalanced⟩
    show s.all.length = 0 ∧ 0 ≤ poolSize
    exact ⟨List.length_eq_zero_iff.2 hsized, Nat.zero_le _⟩
  | noHandle i hphase =>
    rw [hphase] at hbalanced
    exact ⟨⟨o, howned.rephase (by simp [hphase]) nofun⟩, hnodup, trivial, hopened,
      closed_add_all hbalanced⟩
  | refused i db hphase hmem =>
    -- the handle that was not connected is closed at once
    rw [hphase] at hbalanced
    refine ⟨⟨o, howned.rephase (by simp [hphase]) nofun⟩, hnodup, trivial, ?_, ?_⟩
    · refine Multiset.nodup_cons.2 ⟨?_, hopened⟩
      rw [← hbalanced.2]
      exact hmem
    · show db ::ₘ m.closed + s.all = db ::ₘ m.opened
      rw [Multiset.cons_add, closed_add_all hbalanced]
  | connected i db hphase hi hmem => exact hall.connected hphase hi hmem
  | schemaLease i db rest hphase hi hqueue => exact hall.schemaLease hphase hi hqueue
  | schema db ok hphase => exact hall.schema hphase ok
  | close hphase hleases =>
    refine ⟨⟨o, howned.rephase ?_ nofun⟩, hnodup, trivial, hopened, ?_⟩
    · rcases hphase with hphase | hphase | hphase <;> simp [hphase]
    · show m.closed + s.all = m.opened
      rcases hphase with hphase | hphase | hphase <;> rw [hphase] at hbalanced
      · exact closed_add_all hbalanced
      · exact closed_add_all hbalanced
      · exact hbalanced

theorem Conserved.step {poolSize : ℕ} {s s' : DatabasePool} {m : Ledger} {l : Label}
    (h : Conserved poolSize s m) (hstep : s.step poolSize l = some s') :
    Conserved poolSize s' (m.write s l) := by
  cases l with
  | pool op => exact h.pool_step hstep
  | lease op =>
    simp only [DatabasePool.step] at hstep
    split_ifs at hstep with hready
    obtain ⟨o, howned⟩ := h.owned
    obtain ⟨howned', hall, hphase⟩ := howned.lease_step hstep
    have hsized := h.sized
    have hbalanced := h.balanced
    unfold Sized at hsized
    unfold Balanced at hbalanced
    refine ⟨howned', hall ▸ h.nodup, ?_, h.opened, ?_⟩
    · unfold Sized
      rw [hphase, hall]
      exact hsized
    · unfold Balanced
      rw [hphase, hall]
      exact hbalanced

theorem conserved_of_reachable {poolSize : ℕ} {s : DatabasePool} {m : Ledger}
    (h : ((lts poolSize).record {} Ledger.write).Reachable (s, m)) : Conserved poolSize s m := by
  refine LTS.record_invariant (I := Conserved poolSize) h (.init poolSize) ?_
  rintro s m l s' - hs hstep
  exact hs.step hstep

/-- Every handle is in the queue once or held by exactly one lease. -/
theorem Owned.unique {s : DatabasePool} {o : Handle → Option Owner} (h : Owned s o)
    (hready : s.phase = .ready) {db : Handle} (hdb : db ∈ s.all) :
    (s.available.count db = 1 ∧ ∀ l, s.held l ≠ some db) ∨
      db ∉ s.available ∧ ∃! l, s.held l = some db := by
  obtain ⟨owner, howner⟩ := Option.isSome_iff_exists.1 ((h.all db).1 hdb)
  cases owner with
  | queue =>
    exact .inl ⟨List.count_eq_one_of_mem h.nodup ((h.queue db).2 howner),
      fun l => h.owner_unique howner nofun⟩
  | init =>
    rw [(h.init db).2 howner] at hready
    cases hready
  | lease l =>
    refine .inr ⟨fun hmem => ?_, l, (h.lease l db).2 howner, fun l' hl' => ?_⟩
    · rw [(h.queue db).1 hmem] at howner
      cases howner
    · rw [(h.lease l' db).1 hl'] at howner
      cases howner
      rfl

/-- No handle is closed twice, and the destructor leaves none open. -/
theorem Conserved.closed_once {poolSize : ℕ} {s : DatabasePool} {m : Ledger}
    (h : Conserved poolSize s m) :
    (∀ db, m.closed.count db ≤ 1) ∧ (s.phase = .destroyed → m.closed = m.opened) := by
  have hbalanced := h.balanced
  unfold Balanced at hbalanced
  have hle : m.closed ≤ m.opened := by
    split at hbalanced
    · exact hbalanced.le
    · exact hbalanced ▸ Multiset.le_add_right _ _
    · rw [hbalanced.1]
      exact Multiset.zero_le _
  refine ⟨fun db => ?_, fun hphase => ?_⟩
  · exact Multiset.nodup_iff_count_le_one.1 (Multiset.nodup_of_le hle h.opened) db
  · rwa [hphase] at hbalanced

end DatabasePool

end MiniServer
