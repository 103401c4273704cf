import MiniServer.Queue.Priority
import Mathlib.Data.Finmap

/-!
# The timer heap

`TimerHeap` deletes lazily: `latest` holds the current deadline of every fd with a version
number, and the heap holds one node for every deadline ever set.  `popExpired` drops the nodes
that no longer agree with `latest`.  Versions are 64-bit and start again at 1 when an fd is
removed and added again, so a stale node may carry the fd, the version and even the time of
the live entry.

The fds and the times are arbitrary; `std::priority_queue` is any `PriorityQueue`.
-/

namespace MiniServer

namespace TimerHeap

/-- `TimerHeap::Node`. -/
structure Node (F T : Type*) where
  expiresAt : T
  fd : F
  version : UInt64
  deriving DecidableEq

/-- `TimerHeap::Entry`. -/
structure Entry (T : Type*) where
  expiresAt : T
  version : UInt64
  deriving DecidableEq

/-- `TimerHeap::Later`. -/
def later {F T : Type*} [LinearOrder T] (lhs rhs : Node F T) : Bool :=
  decide (lhs.expiresAt > rhs.expiresAt)

theorem later_eq_false {F T : Type*} [LinearOrder T] {a b : Node F T} :
    later a b = false ↔ a.expiresAt ≤ b.expiresAt := by
  simp [later]

/-- A heap of nodes kept as a sorted list. -/
abbrev SortedNodes (F T : Type*) [LinearOrder T] := SortedQueue (Node F T) later

instance {F T : Type*} [LinearOrder T] : PriorityQueue (SortedNodes F T) (Node F T) later :=
  SortedQueue.priorityQueue
    ⟨fun a b => by simpa only [later_eq_false] using le_total _ _⟩
    ⟨fun a b c => by simpa only [later_eq_false] using le_trans⟩

end TimerHeap

open TimerHeap in
/-- `class TimerHeap`. -/
structure TimerHeap (Q F T : Type*) where
  heap : Q
  latest : Finmap fun _ : F => Entry T

namespace TimerHeap

variable {Q F T : Type*} [DecidableEq F] [LinearOrder T]
variable [PriorityQueue Q (Node F T) later]

/-- The heap the constructor makes. -/
def new : TimerHeap Q F T := ⟨PriorityQueue.empty, ∅⟩

/-- `TimerHeap::addOrUpdate`; `UInt64` addition wraps as `size_t` does. -/
def addOrUpdate (h : TimerHeap Q F T) (fd : F) (expiresAt : T) : TimerHeap Q F T :=
  let version := match h.latest.lookup fd with
    | none => 1
    | some e => e.version + 1
  { heap := PriorityQueue.push ⟨expiresAt, fd, version⟩ h.heap
    latest := h.latest.insert fd ⟨expiresAt, version⟩ }

/-- `TimerHeap::remove`. -/
def remove (h : TimerHeap Q F T) (fd : F) : TimerHeap Q F T :=
  { h with latest := h.latest.erase fd }

/-- The loop of `popExpired`: the expired fds in the order they leave the heap.  Every round
takes one node off the heap, so as many rounds as there are nodes are enough. -/
def popLoop (now : T) : ℕ → TimerHeap Q F T → List F × TimerHeap Q F T
  | 0, h => ([], h)
  | n + 1, h =>
    match PriorityQueue.top? h.heap with
    | none => ([], h)
    | some node =>
      if node.expiresAt ≤ now then
        let heap := PriorityQueue.pop h.heap
        match h.latest.lookup node.fd with
        | none => popLoop now n { h with heap }
        | some e =>
          if e.version ≠ node.version ∨ e.expiresAt ≠ node.expiresAt then
            popLoop now n { h with heap }
          else
            let (expired, h') := popLoop now n { heap, latest := h.latest.erase node.fd }
            (node.fd :: expired, h')
      else ([], h)

/-- `TimerHeap::popExpired`. -/
def popExpired (h : TimerHeap Q F T) (now : T) : List F × TimerHeap Q F T :=
  popLoop now (PriorityQueue.size h.heap) h

/-- `TimerHeap::empty`. -/
def isEmpty (h : TimerHeap Q F T) : Bool := decide (h.latest = ∅)

/-- `TimerHeap::size`. -/
def size (h : TimerHeap Q F T) : ℕ := h.latest.keys.card

/-- The current deadline of `fd`. -/
def deadline (h : TimerHeap Q F T) (fd : F) : Option T :=
  (h.latest.lookup fd).map Entry.expiresAt

/-! ### Deadlines after an update -/

@[simp] theorem deadline_new (fd : F) : (new : TimerHeap Q F T).deadline fd = none := by
  simp [new, deadline]

@[simp] theorem deadline_addOrUpdate (h : TimerHeap Q F T) (fd fd' : F) (t : T) :
    (h.addOrUpdate fd t).deadline fd' = if fd' = fd then some t else h.deadline fd' := by
  unfold deadline addOrUpdate
  by_cases hfd : fd' = fd
  · subst hfd; simp
  · simp [hfd, Finmap.lookup_insert_of_ne _ hfd]

omit [LinearOrder T] [PriorityQueue Q (Node F T) later] in
@[simp] theorem deadline_remove (h : TimerHeap Q F T) (fd fd' : F) :
    (h.remove fd).deadline fd' = if fd' = fd then none else h.deadline fd' := by
  unfold deadline remove
  by_cases hfd : fd' = fd
  · subst hfd; simp
  · simp [hfd, Finmap.lookup_erase_ne hfd]

omit [LinearOrder T] [PriorityQueue Q (Node F T) later] in
theorem mem_latest_iff {h : TimerHeap Q F T} {fd : F} :
    fd ∈ h.latest ↔ (h.deadline fd).isSome = true := by
  rw [deadline, Option.isSome_map, Finmap.lookup_isSome]

/-! ### The rounds of `popExpired` -/

/-- A node that agrees with the live entry of its fd. -/
def Live (h : TimerHeap Q F T) (node : Node F T) : Prop :=
  h.latest.lookup node.fd = some ⟨node.expiresAt, node.version⟩

omit [LinearOrder T] [PriorityQueue Q (Node F T) later] in
theorem Live.deadline {h : TimerHeap Q F T} {node : Node F T} (hl : h.Live node) :
    h.deadline node.fd = some node.expiresAt := by
  simp [TimerHeap.deadline, Live] at hl ⊢; simp [hl]

/-- What one round of the loop does. -/
inductive Round (now : T) (n : ℕ) (h : TimerHeap Q F T) : List F × TimerHeap Q F T → Prop
  /-- Nothing in the heap is due. -/
  | stop : (∀ node ∈ PriorityQueue.elems h.heap, now < node.expiresAt) → Round now n h ([], h)
  /-- The node on top is due and stale. -/
  | skip {node : Node F T} : PriorityQueue.top? h.heap = some node → node.expiresAt ≤ now →
      ¬ h.Live node → Round now n h (popLoop now n { h with heap := PriorityQueue.pop h.heap })
  /-- The node on top is due and live. -/
  | expire {node : Node F T} : PriorityQueue.top? h.heap = some node → node.expiresAt ≤ now →
      h.Live node → Round now n h
        (let r := popLoop now n ⟨PriorityQueue.pop h.heap, h.latest.erase node.fd⟩
         (node.fd :: r.1, r.2))

theorem popLoop_succ (now : T) (n : ℕ) (h : TimerHeap Q F T) :
    Round now n h (popLoop now (n + 1) h) := by
  rw [popLoop]
  split
  · rename_i htop
    refine .stop fun node hn => ?_
    rw [PriorityQueue.top?_eq_none htop] at hn
    cases hn
  · rename_i node htop
    split_ifs with hdue
    · split
      · rename_i hnone
        exact .skip htop hdue (by simp [Live, hnone])
      · rename_i e he
        split_ifs with hstale
        · refine .skip htop hdue fun hl => ?_
          rw [Live, he, Option.some.injEq] at hl
          subst hl
          simp at hstale
        · have hlive : h.Live node := by
            obtain ⟨hv, ht⟩ := not_or.1 hstale
            rw [Live, he, ← not_not.1 hv, ← not_not.1 ht]
          exact .expire htop hdue hlive
    · refine .stop fun node' hn => ?_
      exact lt_of_lt_of_le (not_le.1 hdue)
        (later_eq_false.1 (PriorityQueue.top?_earliest htop node' hn))

/-- Every fd that `popExpired` returns had a deadline that was due. -/
theorem popLoop_due {now : T} {n : ℕ} {h : TimerHeap Q F T} {fd : F}
    (hfd : fd ∈ (popLoop now n h).1) : ∃ t, h.deadline fd = some t ∧ t ≤ now := by
  induction n generalizing h with
  | zero => cases hfd
  | succ n ih =>
    have hround := popLoop_succ now n h
    generalize popLoop now (n + 1) h = r at hround hfd
    cases hround with
    | stop _ => cases hfd
    | skip _ _ _ =>
      obtain ⟨t, ht, hle⟩ := ih hfd
      exact ⟨t, ht, hle⟩
    | @expire node htop hdue hlive =>
      rcases List.mem_cons.1 hfd with rfl | hfd
      · exact ⟨_, hlive.deadline, hdue⟩
      · obtain ⟨t, ht, hle⟩ := ih hfd
        refine ⟨t, ?_, hle⟩
        change (h.remove node.fd).deadline fd = some t at ht
        rw [deadline_remove] at ht
        split_ifs at ht with hfd'
        exact ht

/-- `popExpired` removes the deadlines of the fds it returns and no others. -/
theorem popLoop_deadline (now : T) (n : ℕ) (h : TimerHeap Q F T) (fd : F) :
    (popLoop now n h).2.deadline fd =
      if fd ∈ (popLoop now n h).1 then none else h.deadline fd := by
  induction n generalizing h with
  | zero => rfl
  | succ n ih =>
    have hround := popLoop_succ now n h
    generalize popLoop now (n + 1) h = r at hround ⊢
    cases hround with
    | stop _ => rfl
    | skip _ _ _ => exact ih _
    | @expire node _ _ _ =>
      simp only [List.mem_cons]
      rw [ih]
      change (if _ then none else (h.remove node.fd).deadline fd) = _
      rw [deadline_remove]
      by_cases hfd : fd = node.fd <;> simp [hfd]

theorem popLoop_nodup (now : T) (n : ℕ) (h : TimerHeap Q F T) : (popLoop now n h).1.Nodup := by
  induction n generalizing h with
  | zero => exact List.nodup_nil
  | succ n ih =>
    have hround := popLoop_succ now n h
    generalize popLoop now (n + 1) h = r at hround ⊢
    cases hround with
    | stop _ => exact List.nodup_nil
    | skip _ _ _ => exact ih _
    | @expire node _ _ _ =>
      refine List.nodup_cons.2 ⟨fun hmem => ?_, ih _⟩
      obtain ⟨t, ht, -⟩ := popLoop_due hmem
      change (h.remove node.fd).deadline node.fd = some t at ht
      simp at ht

end TimerHeap

end MiniServer
