import MiniServer.Timer.Heap

/-!
# The timer heap refines a map from fds to deadlines

`DeadlineMap` is what a timer table is for: every fd has at most one deadline, an update
replaces it, and expiry removes exactly the deadlines that are due.  `DeadlineMap.Run` says
which answers a sequence of operations may give; only the order of fds with equal deadlines is
open.

The heap keeps one invariant (`TimerHeap.Covered`): the node of every live entry is in the heap.
Stale nodes need none: a node that agrees with the live entry in fd, version and time *is* the
node of that entry, whichever update pushed it.
-/

namespace MiniServer

/-- A map from fds to deadlines. -/
abbrev DeadlineMap (F T : Type*) := Finmap fun _ : F => T

namespace DeadlineMap

variable {F T : Type*} [DecidableEq F] [LinearOrder T]

/-- Operations of a timer table. -/
inductive Op (F T : Type*) where
  | addOrUpdate (fd : F) (expiresAt : T)
  | remove (fd : F)
  | popExpired (now : T)
  | size
  | empty

/-- Answers of a timer table. -/
inductive Out (F : Type*) where
  | done
  | expired (fds : List F)
  | size (n : ℕ)
  | empty (b : Bool)

/-- `fds` are the fds due at `now`, each once and by non-decreasing deadline, and `m'` is the map
without them. -/
structure Expires (m : DeadlineMap F T) (now : T) (fds : List F) (m' : DeadlineMap F T) :
    Prop where
  nodup : fds.Nodup
  mem_iff : ∀ fd, fd ∈ fds ↔ ∃ t, m.lookup fd = some t ∧ t ≤ now
  sorted : fds.Pairwise fun a b =>
    ∀ ta tb, m.lookup a = some ta → m.lookup b = some tb → ta ≤ tb
  lookup : ∀ fd, m'.lookup fd = if fd ∈ fds then none else m.lookup fd

/-- One operation on the map, with its answer. -/
inductive Step : DeadlineMap F T → Op F T → Out F → DeadlineMap F T → Prop
  | addOrUpdate (m : DeadlineMap F T) (fd : F) (t : T) :
      Step m (.addOrUpdate fd t) .done (m.insert fd t)
  | remove (m : DeadlineMap F T) (fd : F) : Step m (.remove fd) .done (m.erase fd)
  | popExpired {m m' : DeadlineMap F T} {now : T} {fds : List F} :
      Expires m now fds m' → Step m (.popExpired now) (.expired fds) m'
  | size (m : DeadlineMap F T) : Step m .size (.size m.keys.card) m
  | empty (m : DeadlineMap F T) : Step m .empty (.empty (decide (m = ∅))) m

/-- A sequence of operations on the map, with their answers. -/
inductive Run : DeadlineMap F T → List (Op F T) → List (Out F) → DeadlineMap F T → Prop
  | nil (m : DeadlineMap F T) : Run m [] [] m
  | cons {m m₁ m₂ : DeadlineMap F T} {op : Op F T} {out : Out F} {ops : List (Op F T)}
      {outs : List (Out F)} :
      Step m op out m₁ → Run m₁ ops outs m₂ → Run m (op :: ops) (out :: outs) m₂

/-- The map without the fds of a list. -/
def eraseAll (m : DeadlineMap F T) (fds : List F) : DeadlineMap F T :=
  fds.foldl (fun m fd => m.erase fd) m

omit [LinearOrder T] in
theorem lookup_eraseAll (m : DeadlineMap F T) (fds : List F) (fd : F) :
    (m.eraseAll fds).lookup fd = if fd ∈ fds then none else m.lookup fd := by
  induction fds generalizing m with
  | nil => simp [eraseAll]
  | cons x fds ih =>
    change (eraseAll (m.erase x) fds).lookup fd = _
    rw [ih]
    by_cases hx : fd = x
    · subst hx; simp
    · simp [hx, Finmap.lookup_erase_ne hx]

end DeadlineMap

namespace TimerHeap

open DeadlineMap (Op Out Step Run)

variable {Q F T : Type*} [DecidableEq F] [LinearOrder T]
variable [PriorityQueue Q (Node F T) later]

/-- One operation on the heap, with its answer. -/
def exec (h : TimerHeap Q F T) : Op F T → Out F × TimerHeap Q F T
  | .addOrUpdate fd t => (.done, h.addOrUpdate fd t)
  | .remove fd => (.done, h.remove fd)
  | .popExpired now => (.expired (h.popExpired now).1, (h.popExpired now).2)
  | .size => (.size h.size, h)
  | .empty => (.empty h.isEmpty, h)

/-- A sequence of operations on the heap, with their answers. -/
def execs : TimerHeap Q F T → List (Op F T) → List (Out F) × TimerHeap Q F T
  | h, [] => ([], h)
  | h, op :: ops => ((h.exec op).1 :: (execs (h.exec op).2 ops).1, (execs (h.exec op).2 ops).2)

/-- The node of every live entry is in the heap. -/
def Covered (h : TimerHeap Q F T) : Prop :=
  ∀ node, h.Live node → node ∈ PriorityQueue.elems h.heap

theorem covered_new : (new : TimerHeap Q F T).Covered := by
  intro node hl
  simp [new, Live] at hl

theorem Covered.addOrUpdate {h : TimerHeap Q F T} (hc : h.Covered) (fd : F) (t : T) :
    (h.addOrUpdate fd t).Covered := by
  intro node hl
  unfold TimerHeap.addOrUpdate at hl ⊢
  simp only [PriorityQueue.elems_push, Multiset.mem_cons]
  by_cases hfd : node.fd = fd
  · left
    obtain ⟨time, fd', version⟩ := node
    subst hfd
    simpa [Live, eq_comm] using hl
  · right
    exact hc node (by simpa [Live, Finmap.lookup_insert_of_ne _ hfd] using hl)

theorem Covered.remove {h : TimerHeap Q F T} (hc : h.Covered) (fd : F) :
    (h.remove fd).Covered := by
  intro node hl
  refine hc node ?_
  unfold TimerHeap.remove Live at hl
  by_cases hfd : node.fd = fd
  · subst hfd; simp at hl
  · rwa [Finmap.lookup_erase_ne hfd] at hl

theorem Covered.skip {h : TimerHeap Q F T} (hc : h.Covered) {node : Node F T}
    (htop : PriorityQueue.top? h.heap = some node) (hstale : ¬ h.Live node) :
    Covered { h with heap := PriorityQueue.pop h.heap } := by
  intro node' hl
  refine PriorityQueue.mem_pop_of_ne htop (hc node' hl) ?_
  rintro rfl
  exact hstale hl

theorem Covered.expire {h : TimerHeap Q F T} (hc : h.Covered) {node : Node F T}
    (htop : PriorityQueue.top? h.heap = some node) :
    Covered ⟨PriorityQueue.pop h.heap, h.latest.erase node.fd⟩ := by
  intro node' hl
  have hne : node' ≠ node := by rintro rfl; simp [Live] at hl
  exact PriorityQueue.mem_pop_of_ne htop (hc.remove node.fd node' hl) hne

theorem covered_popLoop {now : T} {n : ℕ} {h : TimerHeap Q F T} (hc : h.Covered) :
    (popLoop now n h).2.Covered := by
  induction n generalizing h with
  | zero => exact hc
  | succ n ih =>
    have hround := popLoop_succ now n h
    generalize popLoop now (n + 1) h = r at hround ⊢
    cases hround with
    | stop _ => exact hc
    | skip htop _ hstale => exact ih (hc.skip htop hstale)
    | expire htop _ _ => exact ih (hc.expire htop)

/-- With a round for every node, no fd whose deadline is due is missed. -/
theorem mem_popLoop {now : T} {n : ℕ} {h : TimerHeap Q F T} (hc : h.Covered)
    (hn : PriorityQueue.size h.heap ≤ n) {fd : F} {t : T} (hfd : h.deadline fd = some t)
    (ht : t ≤ now) : fd ∈ (popLoop now n h).1 := by
  obtain ⟨e, he, rfl⟩ := Option.map_eq_some_iff.1 hfd
  have hmem : ⟨e.expiresAt, fd, e.version⟩ ∈ PriorityQueue.elems h.heap := hc _ he
  -- its node stays in the heap until it is taken out itself
  induction n generalizing h with
  | zero =>
    have hzero := PriorityQueue.top?_eq_none_of_size (Nat.le_zero.1 hn)
    rw [PriorityQueue.top?_eq_none hzero] at hmem
    cases hmem
  | succ n ih =>
    have hround := popLoop_succ now n h
    generalize popLoop now (n + 1) h = r at hround ⊢
    cases hround with
    | stop hlater => exact absurd ht (not_le.2 (hlater _ hmem))
    | skip htop _ hstale =>
      have hsize := PriorityQueue.size_pop htop
      exact ih (hc.skip htop hstale) (by simp only; omega) he hfd (hc.skip htop hstale _ he)
    | @expire node htop _ hlive =>
      by_cases hfd' : fd = node.fd
      · exact List.mem_cons.2 (.inl hfd')
      · have hsize := PriorityQueue.size_pop htop
        have he' : (h.latest.erase node.fd).lookup fd = some e := by
          rw [Finmap.lookup_erase_ne hfd']; exact he
        refine List.mem_cons_of_mem _ (ih (hc.expire htop) (by simp only; omega) he' ?_ ?_)
        · simp [deadline, he']
        · exact hc.expire htop ⟨_, _, _⟩ he'

/-- The fds leave by non-decreasing deadline: the node on top is an earliest one. -/
theorem pairwise_popLoop {now : T} {n : ℕ} {h : TimerHeap Q F T} (hc : h.Covered) :
    (popLoop now n h).1.Pairwise fun a b =>
      ∀ ta tb, h.deadline a = some ta → h.deadline b = some tb → ta ≤ tb := by
  induction n generalizing h with
  | zero => exact .nil
  | succ n ih =>
    have hround := popLoop_succ now n h
    generalize popLoop now (n + 1) h = r at hround ⊢
    cases hround with
    | stop _ => exact .nil
    | skip htop _ hstale => exact ih (hc.skip htop hstale)
    | @expire node htop _ hlive =>
      -- every later fd has a node in the heap, and none is earlier than the one on top
      refine List.pairwise_cons.2 ⟨fun b _ ta tb ha hb => ?_, ?_⟩
      · rw [hlive.deadline, Option.some.injEq] at ha
        subst ha
        obtain ⟨e, he, rfl⟩ := Option.map_eq_some_iff.1 hb
        exact later_eq_false.1 (PriorityQueue.top?_earliest htop ⟨_, b, _⟩ (hc _ he))
      · refine (ih (hc.expire htop)).imp_of_mem fun {a b} ha hb hab ta tb hta htb => ?_
        obtain ⟨_, ha', -⟩ := popLoop_due ha
        obtain ⟨_, hb', -⟩ := popLoop_due hb
        have hsame : ∀ {fd t t'}, (h.remove node.fd).deadline fd = some t →
            h.deadline fd = some t' → (h.remove node.fd).deadline fd = some t' := by
          intro fd t t' hrem ht'
          rw [deadline_remove] at hrem ⊢
          split_ifs at hrem ⊢
          exact ht'
        exact hab ta tb (hsame ha' hta) (hsame hb' htb)

/-- The heap agrees with the map and covers its entries. -/
structure Refines (h : TimerHeap Q F T) (m : DeadlineMap F T) : Prop where
  lookup : ∀ fd, m.lookup fd = h.deadline fd
  covered : h.Covered

theorem refines_new : Refines (new : TimerHeap Q F T) ∅ :=
  ⟨fun fd => by simp, covered_new⟩

theorem Refines.keys {h : TimerHeap Q F T} {m : DeadlineMap F T} (hr : h.Refines m) :
    m.keys = h.latest.keys := by
  ext fd
  rw [Finmap.mem_keys, Finmap.mem_keys, mem_latest_iff, ← Finmap.lookup_isSome, hr.lookup]

theorem Refines.isEmpty {h : TimerHeap Q F T} {m : DeadlineMap F T} (hr : h.Refines m) :
    h.isEmpty = decide (m = ∅) := by
  rw [TimerHeap.isEmpty, decide_eq_decide]
  have hnone : ∀ fd, h.latest.lookup fd = none ↔ m.lookup fd = none := fun fd => by
    rw [hr.lookup, deadline, Option.map_eq_none_iff]
  constructor
  · intro he
    exact Finmap.ext_lookup fun fd => by
      rw [Finmap.lookup_empty, ← hnone, he, Finmap.lookup_empty]
  · rintro rfl
    exact Finmap.ext_lookup fun fd => by
      rw [Finmap.lookup_empty, hnone, Finmap.lookup_empty]

theorem Refines.expires {h : TimerHeap Q F T} {m : DeadlineMap F T} (hr : h.Refines m) (now : T) :
    m.Expires now (h.popExpired now).1 (m.eraseAll (h.popExpired now).1) where
  nodup := popLoop_nodup now _ h
  mem_iff fd := by
    rw [hr.lookup]
    exact ⟨popLoop_due, fun ⟨t, hfd, ht⟩ => mem_popLoop hr.covered le_rfl hfd ht⟩
  sorted := by
    simp only [hr.lookup]
    exact pairwise_popLoop hr.covered
  lookup fd := m.lookup_eraseAll _ fd

/-- Every operation is a step of the map. -/
theorem Refines.exec {h : TimerHeap Q F T} {m : DeadlineMap F T} (hr : h.Refines m)
    (op : Op F T) : ∃ m', Step m op (h.exec op).1 m' ∧ (h.exec op).2.Refines m' := by
  cases op with
  | addOrUpdate fd t =>
    refine ⟨_, .addOrUpdate m fd t, fun fd' => ?_, hr.covered.addOrUpdate fd t⟩
    change _ = (h.addOrUpdate fd t).deadline fd'
    rw [deadline_addOrUpdate, ← hr.lookup]
    by_cases hfd : fd' = fd
    · subst hfd; simp
    · simp [hfd, Finmap.lookup_insert_of_ne _ hfd]
  | remove fd =>
    refine ⟨_, .remove m fd, fun fd' => ?_, hr.covered.remove fd⟩
    change _ = (h.remove fd).deadline fd'
    rw [deadline_remove, ← hr.lookup]
    by_cases hfd : fd' = fd
    · subst hfd; simp
    · simp [hfd, Finmap.lookup_erase_ne hfd]
  | popExpired now =>
    refine ⟨_, .popExpired (hr.expires now), fun fd => ?_, covered_popLoop hr.covered⟩
    rw [DeadlineMap.lookup_eraseAll, hr.lookup]
    exact (popLoop_deadline now _ h fd).symm
  | size =>
    refine ⟨m, ?_, hr⟩
    change Step m .size (.size h.latest.keys.card) m
    rw [← hr.keys]
    exact .size m
  | empty =>
    refine ⟨m, ?_, hr⟩
    change Step m .empty (.empty h.isEmpty) m
    rw [hr.isEmpty]
    exact .empty m

theorem Refines.execs {h : TimerHeap Q F T} {m : DeadlineMap F T} (hr : h.Refines m)
    (ops : List (Op F T)) :
    ∃ m', Run m ops (h.execs ops).1 m' ∧ (h.execs ops).2.Refines m' := by
  induction ops generalizing h m with
  | nil => exact ⟨m, .nil m, hr⟩
  | cons op ops ih =>
    obtain ⟨m₁, hstep, hr₁⟩ := hr.exec op
    obtain ⟨m₂, hrun, hr₂⟩ := ih hr₁
    exact ⟨m₂, .cons hstep hrun, hr₂⟩

/-- **The timer heap is a map from fds to deadlines.**  The answers to any sequence of
operations on an empty heap are those of the plain map, and the deadlines that remain are the
map's. -/
theorem execs_new_eq_map (ops : List (Op F T)) :
    ∃ m : DeadlineMap F T, Run ∅ ops ((new : TimerHeap Q F T).execs ops).1 m ∧
      ∀ fd, ((new : TimerHeap Q F T).execs ops).2.deadline fd = m.lookup fd := by
  obtain ⟨m, hrun, hr⟩ := (refines_new (Q := Q)).execs ops
  exact ⟨m, hrun, fun fd => (hr.lookup fd).symm⟩

end TimerHeap

end MiniServer
