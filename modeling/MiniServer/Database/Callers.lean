import MiniServer.Database.Pool

/-!
# Threads that wait for a handle

Each thread runs calls of `registerUser` and `loginUser`; both acquire a lease, use it and destroy
it.  Here `cv_.wait` and `cv_.notify_one` are steps of their own: a notification wakes one of the
threads that sleep at that moment, and is lost when there is none.

`Waiting.wake` says that no wakeup is lost: while a thread sleeps, there are no more handles in the
queue than threads that are about to notify or that were woken.
-/

namespace MiniServer

/-- A thread that calls `registerUser` and `loginUser`. -/
inductive CallPc where
  /-- Between two calls. -/
  | idle
  /-- About to take `mutex_` in `acquire`. -/
  | enter
  /-- In `cv_.wait`. -/
  | asleep
  /-- Woken, about to take `mutex_` and to test the predicate again. -/
  | woken
  /-- In a call, with a lease. -/
  | holding
  /-- In `release`, behind its section. -/
  | notify
  /-- No call is left. -/
  | finished
  deriving DecidableEq, Repr

/-- The pool and the threads that use it. -/
structure Callers where
  pool : DatabasePool := {}
  threads : List CallPc

namespace Callers

/-- The steps of the threads. -/
inductive Label where
  /-- The thread that runs `init`. -/
  | pool (op : DatabasePool.PoolOp)
  /-- The next step of a thread. -/
  | thread (i : ℕ)
  /-- `cv_.notify_one`, with the thread that it wakes. -/
  | notify (i : ℕ) (woken : Option ℕ)
  /-- A thread returns from `cv_.wait` without a notification. -/
  | wake (i : ℕ)
  /-- A thread has no call left. -/
  | finish (i : ℕ)
  deriving DecidableEq, Repr

/-- A thread in a new state. -/
def setThread (s : Callers) (i : ℕ) (pc : CallPc) : Callers :=
  { s with threads := s.threads.set i pc }

/-- The section of `acquire`, up to the wait or the lease. -/
def lockStep (poolSize : ℕ) (s : Callers) (i : ℕ) : Option Callers :=
  if s.pool.available = [] then some (s.setThread i .asleep)
  else (s.pool.step poolSize (.lease (.acquire i))).map fun pool =>
    { s with pool }.setThread i .holding

/-- A step of `registerUser` or `loginUser`. -/
def threadStep (poolSize : ℕ) (s : Callers) (i : ℕ) : Option Callers :=
  match s.threads[i]? with
  | some .idle => some (s.setThread i .enter)
  | some .enter => s.lockStep poolSize i
  | some .woken => s.lockStep poolSize i
  | some .holding => (s.pool.step poolSize (.lease (.destroy i))).map fun pool =>
    { s with pool }.setThread i .notify
  | _ => none

/-- `cv_.notify_one` of a thread: it wakes a thread that sleeps, if there is one. -/
def notifyStep (s : Callers) (i : ℕ) : Option ℕ → Option Callers
  | none => if .asleep ∈ s.threads then none else some (s.setThread i .idle)
  | some j =>
    if s.threads[j]? = some .asleep then some ((s.setThread i .idle).setThread j .woken) else none

/-- A step of the threads; the calls start when `init` has returned `true`. -/
def step (poolSize : ℕ) (s : Callers) (l : Label) : Option Callers :=
  if s.pool.phase = .ready then
    match l with
    | .pool _ => none
    | .thread i => s.threadStep poolSize i
    | .notify i woken => if s.threads[i]? = some .notify then s.notifyStep i woken else none
    | .wake i => if s.threads[i]? = some .asleep then some (s.setThread i .woken) else none
    | .finish i => if s.threads[i]? = some .idle then some (s.setThread i .finished) else none
  else
    match l with
    | .pool op => (s.pool.step poolSize (.pool op)).map fun pool => { s with pool }
    | _ => none

/-- The threads before `init`. -/
def lts (poolSize threadCount : ℕ) : LTS Callers Label where
  init := { threads := List.replicate threadCount .idle }
  step := step poolSize

/-- A thread that is in `acquire` and gets no handle as things are. -/
def Blocked (s : Callers) : CallPc → Prop
  | .asleep => True
  | .enter | .woken => s.pool.available = []
  | _ => False

/-! ### One step -/

/-- What a step does; `pool` is the pool after a step of its own. -/
inductive StepCase (poolSize : ℕ) (s : Callers) : Callers → Prop
  | pool (op : DatabasePool.PoolOp) (pool : DatabasePool) : s.pool.phase ≠ .ready →
      s.pool.step poolSize (.pool op) = some pool → StepCase poolSize s { s with pool }
  /-- `wait` puts a thread to sleep. -/
  | sleep (i : ℕ) (pc : CallPc) : s.pool.phase = .ready → s.threads[i]? = some pc →
      pc ≠ .holding → s.pool.available = [] → StepCase poolSize s (s.setThread i .asleep)
  | acquire (i : ℕ) (pc : CallPc) (db : Handle) (rest : List Handle) :
      s.pool.phase = .ready → s.threads[i]? = some pc → pc = .enter ∨ pc = .woken →
      s.pool.available = db :: rest → i ∉ s.pool.leases →
      StepCase poolSize s ({ s with
        pool := { s.pool with available := rest }.setLease i (.live (some db)) }.setThread
          i .holding)
  | release (i : ℕ) (pool : DatabasePool) : s.pool.phase = .ready →
      s.threads[i]? = some .holding → s.pool.leaseStep (.destroy i) = some pool →
      StepCase poolSize s ({ s with pool }.setThread i .notify)
  /-- `notify_one` finds no sleeper. -/
  | notify (i : ℕ) : s.pool.phase = .ready → s.threads[i]? = some .notify →
      .asleep ∉ s.threads → StepCase poolSize s (s.setThread i .idle)
  | notifyOne (i j : ℕ) : s.pool.phase = .ready → s.threads[i]? = some .notify →
      s.threads[j]? = some .asleep →
      StepCase poolSize s ((s.setThread i .idle).setThread j .woken)
  /-- A step that neither sleeps nor notifies nor has to do with the pool. -/
  | move (i : ℕ) (pc pc' : CallPc) : s.pool.phase = .ready → s.threads[i]? = some pc →
      (pc = .idle ∧ (pc' = .enter ∨ pc' = .finished)) ∨ (pc = .asleep ∧ pc' = .woken) →
      StepCase poolSize s (s.setThread i pc')

theorem lockStep_cases {poolSize : ℕ} {s s' : Callers} {i : ℕ} {pc : CallPc}
    (hready : s.pool.phase = .ready) (hi : s.threads[i]? = some pc)
    (hpc : pc = .enter ∨ pc = .woken) (h : s.lockStep poolSize i = some s') :
    StepCase poolSize s s' := by
  unfold lockStep at h
  split_ifs at h with hempty
  · cases h
    exact .sleep i pc hready hi (by rcases hpc with rfl | rfl <;> simp) hempty
  · obtain ⟨pool, hpool, rfl⟩ := Option.map_eq_some_iff.1 h
    simp only [DatabasePool.step, hready, if_true] at hpool
    cases DatabasePool.leaseStep_cases hpool with
    | acquire l db rest hl hqueue => exact .acquire i pc db rest hready hi hpc hqueue hl

theorem step_cases {poolSize : ℕ} {s s' : Callers} {l : Label}
    (h : s.step poolSize l = some s') : StepCase poolSize s s' := by
  unfold Callers.step at h
  by_cases hready : s.pool.phase = .ready
  · rw [if_pos hready] at h
    cases l with
    | pool op => cases h
    | thread i =>
      simp only [threadStep] at h
      split at h
      · rename_i hi
        cases h
        exact .move i _ _ hready hi (.inl ⟨rfl, .inl rfl⟩)
      · rename_i hi
        exact lockStep_cases hready hi (.inl rfl) h
      · rename_i hi
        exact lockStep_cases hready hi (.inr rfl) h
      · rename_i hi
        obtain ⟨pool, hpool, rfl⟩ := Option.map_eq_some_iff.1 h
        simp only [DatabasePool.step, hready, if_true] at hpool
        exact .release i pool hready hi hpool
      · cases h
    | notify i woken =>
      simp only at h
      split_ifs at h with hi
      cases woken with
      | none =>
        simp only [notifyStep] at h
        split_ifs at h with hasleep
        cases h
        exact .notify i hready hi hasleep
      | some j =>
        simp only [notifyStep] at h
        split_ifs at h with hj
        cases h
        exact .notifyOne i j hready hi hj
    | wake i =>
      simp only at h
      split_ifs at h with hi
      cases h
      exact .move i _ _ hready hi (.inr ⟨rfl, rfl⟩)
    | finish i =>
      simp only at h
      split_ifs at h with hi
      cases h
      exact .move i _ _ hready hi (.inl ⟨rfl, .inr rfl⟩)
  · rw [if_neg hready] at h
    cases l with
    | pool op =>
      obtain ⟨pool, hpool, rfl⟩ := Option.map_eq_some_iff.1 h
      exact .pool op pool hready hpool
    | _ => cases h

/-! ### No wakeup is lost -/

/-- The invariant of the threads. -/
structure Waiting (s : Callers) : Prop where
  leases : ∀ l ∈ s.pool.leases, s.threads[l]? = some .holding
  started : s.pool.phase ≠ .ready → s.threads.count .asleep = 0
  wake : s.threads.count .asleep = 0 ∨
    s.pool.available.length ≤ s.threads.count .notify + s.threads.count .woken

theorem count_setThread {s : Callers} {i : ℕ} {pc : CallPc} (hi : s.threads[i]? = some pc)
    (pc' q : CallPc) :
    (s.setThread i pc').threads.count q + (if pc = q then 1 else 0) =
      s.threads.count q + if pc' = q then 1 else 0 := by
  obtain ⟨hlt, rfl⟩ := List.getElem?_eq_some_iff.1 hi
  have hset := List.count_set (a := pc') (b := q) hlt
  have hle : (if s.threads[i] = q then 1 else 0) ≤ s.threads.count q := by
    split_ifs with heq
    · exact List.count_pos_iff.2 (heq ▸ List.getElem_mem hlt)
    · exact Nat.zero_le _
  unfold setThread
  rw [hset]
  simp only [beq_iff_eq]
  omega

theorem Waiting.init (threadCount : ℕ) :
    Waiting { threads := List.replicate threadCount .idle } where
  leases _ hl := absurd hl Finmap.notMem_empty
  started _ := List.count_replicate.trans rfl
  wake := .inl (List.count_replicate.trans rfl)

/-- A thread changes its state, and the pool does not. -/
theorem Waiting.setThread {s : Callers} (h : Waiting s) {i : ℕ} {pc pc' : CallPc}
    (hi : s.threads[i]? = some pc) (hpc : pc ≠ .holding) (hready : s.pool.phase = .ready)
    (hwake : (s.setThread i pc').threads.count .asleep = 0 ∨ s.pool.available.length ≤
      (s.setThread i pc').threads.count .notify + (s.setThread i pc').threads.count .woken) :
    Waiting (s.setThread i pc') where
  leases l hl := by
    have hne : i ≠ l := by
      rintro rfl
      rw [h.leases i hl] at hi
      exact hpc (Option.some.inj hi).symm
    exact (List.getElem?_set_ne hne).trans (h.leases l hl)
  started hnot := absurd hready hnot
  wake := hwake

/-- A thread takes one handle, and it was at most one of the woken. -/
theorem Waiting.acquire {s : Callers} (h : Waiting s) {i : ℕ} {pc : CallPc} {db : Handle}
    {rest : List Handle} (hready : s.pool.phase = .ready) (hi : s.threads[i]? = some pc)
    (hpc : pc = .enter ∨ pc = .woken) (hqueue : s.pool.available = db :: rest)
    (hl : i ∉ s.pool.leases) : Waiting ({ s with
      pool := { s.pool with available := rest }.setLease i (.live (some db)) }.setThread
        i .holding) where
  leases l hmem := by
    rcases Finmap.mem_insert.1 hmem with rfl | hmem
    · exact List.getElem?_set_self (List.getElem?_eq_some_iff.1 hi).1
    · have hne : i ≠ l := by
        rintro rfl
        exact hl hmem
      exact (List.getElem?_set_ne hne).trans (h.leases l hmem)
  started hnot := absurd hready hnot
  wake := by
    have hwake := h.wake
    rw [hqueue, List.length_cons] at hwake
    have hasleep := count_setThread hi .holding .asleep
    have hnotify := count_setThread hi .holding .notify
    have hwoken := count_setThread hi .holding .woken
    show (s.setThread i .holding).threads.count .asleep = 0 ∨ rest.length ≤
      (s.setThread i .holding).threads.count .notify +
        (s.setThread i .holding).threads.count .woken
    rcases hpc with rfl | rfl <;>
      simp only [reduceCtorEq, if_false, if_true] at hasleep hnotify hwoken <;> omega

theorem destroy_frame {s s' : DatabasePool} {l : LeaseId} (h : s.leaseStep (.destroy l) = some s') :
    s'.leases = s.leases.erase l ∧ s'.phase = s.phase ∧
      s'.available.length ≤ s.available.length + 1 := by
  cases DatabasePool.leaseStep_cases h with
  | destroyLive l db hl =>
    refine ⟨rfl, rfl, ?_⟩
    show (s.available ++ [db]).length ≤ _
    rw [List.length_append, List.length_singleton]
  | destroyEmpty l hl => exact ⟨rfl, rfl, Nat.le_succ _⟩

theorem poolStep_leases {poolSize : ℕ} {s s' : DatabasePool} {op : DatabasePool.PoolOp}
    (h : s.poolStep poolSize op = some s') : s'.leases = s.leases := by
  cases DatabasePool.poolStep_cases h <;> rfl

/-- A thread gives its handle back and is about to notify. -/
theorem Waiting.release {s : Callers} (h : Waiting s) {i : ℕ} {pool : DatabasePool}
    (hready : s.pool.phase = .ready) (hi : s.threads[i]? = some .holding)
    (hpool : s.pool.leaseStep (.destroy i) = some pool) :
    Waiting ({ s with pool }.setThread i .notify) := by
  obtain ⟨hleases, hphase, havailable⟩ := destroy_frame hpool
  constructor
  case leases =>
    intro l hl
    have hl : l ∈ s.pool.leases.erase i := hleases ▸ hl
    rw [Finmap.mem_erase] at hl
    exact (List.getElem?_set_ne hl.1.symm).trans (h.leases l hl.2)
  case started => exact fun hnot => absurd (hphase.trans hready) hnot
  case wake =>
    have hwake := h.wake
    have hasleep := count_setThread hi .notify .asleep
    have hnotify := count_setThread hi .notify .notify
    have hwoken := count_setThread hi .notify .woken
    simp only [reduceCtorEq, if_false, if_true] at hasleep hnotify hwoken
    show (s.setThread i .notify).threads.count .asleep = 0 ∨ pool.available.length ≤
      (s.setThread i .notify).threads.count .notify +
        (s.setThread i .notify).threads.count .woken
    omega

theorem Waiting.notify {s : Callers} (h : Waiting s) {i j : ℕ} (hi : s.threads[i]? = some .notify)
    (hj : s.threads[j]? = some .asleep) (hready : s.pool.phase = .ready) :
    Waiting ((s.setThread i .idle).setThread j .woken) := by
  have hne : i ≠ j := by
    rintro rfl
    rw [hi] at hj
    cases hj
  have hj' : (s.setThread i .idle).threads[j]? = some .asleep :=
    (List.getElem?_set_ne hne).trans hj
  constructor
  case leases =>
    intro l hl
    have hold := h.leases l hl
    have hil : i ≠ l := by
      rintro rfl
      rw [hi] at hold
      cases hold
    have hjl : j ≠ l := by
      rintro rfl
      rw [hj] at hold
      cases hold
    exact (List.getElem?_set_ne hjl).trans ((List.getElem?_set_ne hil).trans hold)
  case started => exact fun hnot => absurd hready hnot
  case wake =>
    -- one thread that can wake up takes the place of the other
    have hwake := h.wake
    have hcount := fun q => count_setThread hi .idle q
    have hcount' := fun q => count_setThread hj' .woken q
    have hasleep := hcount .asleep
    have hnotify := hcount .notify
    have hwoken := hcount .woken
    have hasleep' := hcount' .asleep
    have hnotify' := hcount' .notify
    have hwoken' := hcount' .woken
    simp only [reduceCtorEq, if_false, if_true] at hasleep hnotify hwoken hasleep' hnotify' hwoken'
    show _ ∨ s.pool.available.length ≤ _
    omega

theorem Waiting.step {poolSize : ℕ} {s s' : Callers} {l : Label} (h : Waiting s)
    (hstep : s.step poolSize l = some s') : Waiting s' := by
  cases step_cases hstep with
  | pool op pool hready hpool =>
    exact ⟨fun l hl => h.leases l (poolStep_leases hpool ▸ hl), fun _ => h.started hready,
      .inl (h.started hready)⟩
  | sleep i pc hready hi hpc hempty =>
    refine h.setThread hi hpc hready (.inr ?_)
    rw [hempty]
    exact Nat.zero_le _
  | acquire i pc db rest hready hi hpc hqueue hl => exact h.acquire hready hi hpc hqueue hl
  | release i pool hready hi hpool => exact h.release hready hi hpool
  | notify i hready hi hasleep =>
    refine h.setThread hi nofun hready (.inl ?_)
    have hcount := count_setThread hi .idle .asleep
    rw [List.count_eq_zero_of_not_mem hasleep] at hcount
    simpa using hcount
  | notifyOne i j hready hi hj => exact h.notify hi hj hready
  | move i pc pc' hready hi hmove =>
    have hwake := h.wake
    have hasleep := count_setThread hi pc' .asleep
    have hnotify := count_setThread hi pc' .notify
    have hwoken := count_setThread hi pc' .woken
    rcases hmove with ⟨rfl, rfl | rfl⟩ | ⟨rfl, rfl⟩ <;>
      simp only [reduceCtorEq, if_false, if_true] at hasleep hnotify hwoken <;>
      exact h.setThread hi nofun hready (by omega)

theorem waiting_of_reachable {poolSize threadCount : ℕ} {s : Callers}
    (h : (lts poolSize threadCount).Reachable s) : Waiting s := by
  refine LTS.ReachableIf.invariant h (.init threadCount) ?_
  rintro s l s' - hs - hstep
  exact hs.step hstep

/-! ### The pool of the threads -/

/-- What a step does to the pool is a step of the pool. -/
theorem pool_cases {poolSize : ℕ} {s s' : Callers} {l : Label}
    (hstep : s.step poolSize l = some s') :
    s'.pool = s.pool ∨ ∃ op, s.pool.step poolSize op = some s'.pool := by
  cases step_cases hstep with
  | pool op pool hready hpool => exact .inr ⟨.pool op, hpool⟩
  | acquire i pc db rest hready hi hpc hqueue hl =>
    refine .inr ⟨.lease (.acquire i), ?_⟩
    simp only [DatabasePool.step, hready, if_true, DatabasePool.leaseStep, hl, if_false,
      DatabasePool.acquire, hqueue]
    rfl
  | release i pool hready hi hpool =>
    refine .inr ⟨.lease (.destroy i), ?_⟩
    simp only [DatabasePool.step, hready, if_true]
    exact hpool
  | _ => exact .inl rfl

/-- The pool of a run of the threads is the pool of a run of its own. -/
theorem pool_reachable {poolSize threadCount : ℕ} {s : Callers}
    (h : (lts poolSize threadCount).Reachable s) :
    (DatabasePool.lts poolSize).Reachable s.pool := by
  refine LTS.ReachableIf.invariant (I := fun s : Callers =>
    (DatabasePool.lts poolSize).Reachable s.pool) h .init ?_
  rintro s l s' - hs - hstep
  rcases pool_cases hstep with heq | ⟨op, hop⟩
  · rw [heq]
    exact hs
  · exact .step hs trivial hop

/-- While a thread has work left, some thread with work left is not blocked in `acquire`. -/
theorem exists_not_blocked {poolSize threadCount : ℕ} (hpos : 1 ≤ poolSize) {s : Callers}
    (h : (lts poolSize threadCount).Reachable s) (hready : s.pool.phase = .ready)
    (hwork : ∃ pc ∈ s.threads, pc ≠ .finished) :
    ∃ pc ∈ s.threads, pc ≠ .finished ∧ ¬ s.Blocked pc := by
  have hs := waiting_of_reachable h
  have hledger : ∃ m, ((DatabasePool.lts poolSize).record {} DatabasePool.Ledger.write).Reachable
      (s.pool, m) := LTS.exists_ledger (pool_reachable h)
  obtain ⟨m, hm⟩ := hledger
  obtain ⟨⟨o, howned⟩, -, hsized, -, -⟩ := DatabasePool.conserved_of_reachable hm
  unfold DatabasePool.Sized at hsized
  rw [hready] at hsized
  obtain ⟨db, hdb⟩ := List.exists_mem_of_length_pos (show 0 < s.pool.all.length by
    rw [hsized]; exact hpos)
  by_cases hempty : s.pool.available = []
  · -- a thread holds the handle
    rcases howned.unique hready hdb with ⟨hcount, -⟩ | ⟨-, l, hl, -⟩
    · rw [hempty] at hcount
      cases hcount
    · have hmem : l ∈ s.pool.leases := by
        by_contra hnot
        simp only [DatabasePool.held, Finmap.lookup_eq_none.2 hnot] at hl
        cases hl
      exact ⟨.holding, List.mem_of_getElem? (hs.leases l hmem), by simp, id⟩
  · -- a handle is free: the sleepers are not alone
    by_contra hall
    push Not at hall
    have hnone : ∀ pc ∈ s.threads, pc = .finished ∨ pc = .asleep := by
      intro pc hpc
      by_cases hfinished : pc = .finished
      · exact .inl hfinished
      · have hblocked := hall pc hpc hfinished
        cases pc with
        | asleep => exact .inr rfl
        | enter | woken => exact absurd hblocked hempty
        | idle | holding | notify => exact hblocked.elim
        | finished => exact .inl rfl
    obtain ⟨pc, hpc, hne⟩ := hwork
    have hasleep : .asleep ∈ s.threads := (hnone pc hpc).resolve_left hne ▸ hpc
    have hzero : ∀ q : CallPc, q ≠ .finished → q ≠ .asleep → s.threads.count q = 0 := by
      intro q hfin hasl
      exact List.count_eq_zero_of_not_mem fun hq => (hnone q hq).elim hfin hasl
    rcases hs.wake with hcount | hcount
    · exact absurd (List.count_pos_iff.2 hasleep) (by omega)
    · rw [hzero .notify (by simp) (by simp), hzero .woken (by simp) (by simp)] at hcount
      exact hempty (List.length_eq_zero_iff.1 (Nat.le_zero.1 hcount))

end Callers

/-- The pool keeps its handles: each is in the queue once or held by exactly one lease, and closed
once; and of threads that register and log in, not all that have work left wait for a handle. -/
theorem DatabasePool.conserves_connections {poolSize : ℕ} (hpos : 1 ≤ poolSize) (threadCount : ℕ) :
    (∀ s m, ((lts poolSize).record {} Ledger.write).Reachable (s, m) →
      (s.phase = .ready → s.all.Nodup ∧ s.all.length = poolSize ∧ ∀ db ∈ s.all,
        (s.available.count db = 1 ∧ ∀ l, s.held l ≠ some db) ∨
          db ∉ s.available ∧ ∃! l, s.held l = some db) ∧
      (∀ db, m.closed.count db ≤ 1) ∧ (s.phase = .destroyed → m.closed = m.opened)) ∧
    ∀ s, (Callers.lts poolSize threadCount).Reachable s → s.pool.phase = .ready →
      (∃ pc ∈ s.threads, pc ≠ .finished) →
        ∃ pc ∈ s.threads, pc ≠ .finished ∧ ¬ s.Blocked pc := by
  constructor
  · intro s m h
    have hconserved := conserved_of_reachable h
    refine ⟨fun hready => ⟨hconserved.nodup, ?_, fun db hdb => ?_⟩, hconserved.closed_once⟩
    · have hsized := hconserved.sized
      unfold Sized at hsized
      rwa [hready] at hsized
    · obtain ⟨o, howned⟩ := hconserved.owned
      exact howned.unique hready hdb
  · intro s h hready hwork
    exact Callers.exists_not_blocked hpos h hready hwork

/-- `init` with one handle, a lease that is acquired, moved and assigned, and the destructor. -/
def DatabasePool.leaseRun : List Label :=
  [.pool .init, .pool (.connect (.connected 7)), .pool .schemaLease, .pool (.schema true),
    .lease (.acquire 0), .lease (.move 1 0), .lease (.construct 2), .lease (.assign 2 1),
    .lease (.takeOver 2), .lease (.destroy 0), .lease (.destroy 1), .lease (.destroy 2),
    .pool .close]

/-- One thread has the only handle, another one sleeps. -/
def Callers.sleeperRun : List Label :=
  [.pool .init, .pool (.connect (.connected 7)), .pool .schemaLease, .pool (.schema true),
    .thread 0, .thread 0, .thread 1, .thread 1]

theorem DatabasePool.conserves_connections_one :
    (∃ s m, ((lts 1).record {} Ledger.write).Reachable (s, m) ∧ s.phase = .destroyed ∧
      m.closed = {7}) ∧
    ∃ s, (Callers.lts 1 2).Reachable s ∧ s.threads = [.holding, .asleep] ∧
      ∃ pc ∈ s.threads, pc ≠ .finished ∧ ¬ s.Blocked pc := by
  have hpool := conserves_connections (show 1 ≤ 1 by decide) 2
  obtain ⟨⟨s, m⟩, hrun, hphase, hopened⟩ :
      ∃ p ∈ ((lts 1).record {} Ledger.write).run ((lts 1).record {} Ledger.write).init leaseRun,
        p.1.phase = .destroyed ∧ p.2.opened = {7} := by decide +kernel
  obtain ⟨t, hrun', hready, hthreads⟩ :
      ∃ s ∈ (Callers.lts 1 2).run (Callers.lts 1 2).init Callers.sleeperRun,
        s.pool.phase = .ready ∧ s.threads = [.holding, .asleep] := by decide +kernel
  have h := LTS.reachable_of_run hrun
  have h' := LTS.reachable_of_run hrun'
  refine ⟨⟨s, m, h, hphase, ?_⟩, t, h', hthreads, hpool.2 t h' hready ?_⟩
  · exact ((hpool.1 s m h).2.2 hphase).trans hopened
  · exact ⟨.holding, by rw [hthreads]; decide, nofun⟩

end MiniServer
