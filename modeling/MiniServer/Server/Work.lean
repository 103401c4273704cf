import Mathlib.Algebra.GroupWithZero.Nat
import Mathlib.Algebra.BigOperators.Group.List.Basic
import MiniServer.LTS.Record
import MiniServer.Server.Activity

/-!
# The work of the server

The loops of the server go on for a reason: `eventLoop` for a return of `epoll_wait`, the loop over
the events for an event, `handleAccept` for a client, `closeIdleConnections` for an expired timer,
`handleRead` and `handleWrite` for bytes that move.  `HttpServer.load` is the work that is under way
and paid for; a step that none of these reasons pays for makes it less.  So the number of steps of
any run is bounded by what the kernel has given to the server (`steps_le`), and a server that gets
nothing comes to rest.
-/

namespace MiniServer

/-- The steps of a run and what they are for. -/
structure Bill where
  /-- Steps of the main thread and of the workers. -/
  steps : ℕ := 0
  /-- Returns of `epoll_wait`. -/
  wakeups : ℕ := 0
  events : ℕ := 0
  accepted : ℕ := 0
  /-- Timers that `popExpired` has found. -/
  expired : ℕ := 0
  /-- Results of `read` and `writev` with bytes. -/
  moves : ℕ := 0
  deriving DecidableEq, Repr

/-- What is paid for. -/
def Bill.paid (m : Bill) : ℕ :=
  8 * m.wakeups + 20 * m.events + 3 * m.accepted + 6 * m.expired + 3 * m.moves

/-- The steps of the main thread until it waits, and of the tasks that it is to start. -/
def Main.load : Main → ℕ
  | .loop => 4
  | .wait => 0
  | .events rest => 7 + 20 * rest.length
  | .accept rest => 8 + 20 * rest.length
  | .register _ _ rest => 10 + 20 * rest.length
  | .add _ rest => 9 + 20 * rest.length
  | .dispatch _ _ rest => 26 + 20 * rest.length
  | .begin _ _ _ rest => 25 + 20 * rest.length
  | .enqueue _ _ _ rest => 24 + 20 * rest.length
  | .closing _ pc (.events rest) => pc.rank + 8 + 20 * rest.length
  | .closing _ pc (.idle rest) => pc.rank + 6 + 6 * rest.length
  | .idle => 6
  | .expired rest => 5 + 6 * rest.length
  | .stop => 3
  | .join => 2
  | .shutdown => 1
  | .stopped => 0

namespace HttpServer

variable {Q : Type}

/-- The steps that are under way. -/
def load (s : HttpServer Q) : ℕ :=
  s.main.load + (s.queue.map fun t => t.pc.rank + 2).sum + (s.tasks.map fun t => t.pc.rank + 1).sum

theorem closeBegin_rank : (Pc.closeBegin : Pc ConnId).rank = 4 := rfl

theorem beginPc_rank (interest : Interest) : (beginPc interest).rank ≤ 14 := by
  cases interest <;> decide

/-- A step of `closeConnection` in the main thread. -/
theorem load_closing {fd : Fd} {pc : Pc ConnId} {caller : Caller} {pc' : Option (Pc ConnId)}
    (hpc : ∀ q ∈ pc', q.rank < pc.rank) :
    (pc'.elim caller.main fun pc' => Main.closing fd pc' caller).load + 1 ≤
      (Main.closing fd pc caller).load := by
  cases pc' with
  | none => cases caller <;> simp only [Option.elim, Caller.main, Main.load] <;> omega
  | some q =>
    have hlt := hpc q rfl
    cases caller <;> simp only [Option.elim, Main.load] <;> omega

/-- A step of the main thread that starts no task. -/
theorem load_goto {s s' : HttpServer Q} {m₀ m : Main} {k : ℕ} (hm : s.main = m₀)
    (hm' : s'.main = m) (hqueue : s'.queue = s.queue) (htasks : s'.tasks = s.tasks)
    (h : m.load + 1 ≤ m₀.load + k) : s'.load + 1 ≤ s.load + k := by
  simp only [load, hm, hm', hqueue, htasks]
  omega

section Step

variable [PriorityQueue Q (TimerHeap.Node Fd ℕ) TimerHeap.later]

/-- What the kernel pays for a step of the main thread. -/
def credit (s : HttpServer Q) : MainSys → ℕ
  | .events evs => 8 + 20 * evs.length
  | .interrupted | .failed => 8
  | .accepted _ _ => 3
  | .refused => 0
  | .done => if s.main = .idle then 6 * (s.timers.popExpired s.now).1.length else 0

/-- The bill after a step. -/
def bill (m : Bill) (s : HttpServer Q) : Label → Bill
  | .tick _ | .requestStop => m
  | .start => { m with steps := m.steps + 1 }
  | .task _ r => { m with
      steps := m.steps + 1
      moves := m.moves + r.movesBytes.toNat }
  | .main (.events evs) => { m with
      steps := m.steps + 1
      wakeups := m.wakeups + 1
      events := m.events + evs.length }
  | .main .interrupted | .main .failed => { m with
      steps := m.steps + 1
      wakeups := m.wakeups + 1 }
  | .main (.accepted _ _) => { m with
      steps := m.steps + 1
      accepted := m.accepted + 1 }
  | .main .refused => { m with steps := m.steps + 1 }
  | .main .done => { m with
      steps := m.steps + 1
      expired := m.expired +
        if s.main = .idle then (s.timers.popExpired s.now).1.length else 0 }

variable {reply : Bytes → Answer} {idle : ℕ} {s s' : HttpServer Q} {m : Bill}

theorem bill_main (m : Bill) (s : HttpServer Q) (r : MainSys) :
    (bill m s (.main r)).steps = m.steps + 1 ∧
      (bill m s (.main r)).paid = m.paid + s.credit r := by
  refine ⟨by cases r <;> rfl, ?_⟩
  cases r with
  | done =>
    simp only [bill, credit, Bill.paid]
    split_ifs <;> omega
  | _ =>
    simp only [bill, credit, Bill.paid]
    omega

/-- Each step of the main thread is paid for, by the work under way or by the kernel. -/
theorem main_load {r : MainSys} (h : s.mainStep reply idle r = some s') :
    s'.load + 1 ≤ s.load + s.credit r := by
  unfold mainStep at h
  split at h
  case h_1 hm =>
    cases h
    refine load_goto hm rfl rfl rfl ?_
    split_ifs <;> simp only [Main.load] <;> omega
  case h_2 evs hm =>
    obtain ⟨s₁, hev, rfl⟩ := Option.map_eq_some_iff.1 h
    obtain ⟨files, rfl⟩ := deliverAll_eq hev
    refine load_goto hm rfl rfl rfl ?_
    simp only [Main.load, credit]
    omega
  case h_7 hm =>
    cases h
    refine load_goto hm rfl rfl rfl ?_
    simp only [Main.load, closeBegin_rank, List.length_cons]
    omega
  case h_10 fd peerIp rest hm =>
    obtain ⟨-, h⟩ := Option.ite_none_left_eq_some.1 h
    cases h
    refine load_goto hm rfl rfl rfl ?_
    simp only [Main.load, credit]
    omega
  case h_12 hm =>
    cases h
    refine load_goto hm rfl rfl rfl ?_
    simp only [Main.load]
    omega
  case h_13 hm =>
    cases h
    refine load_goto hm rfl rfl rfl ?_
    simp only [Main.load]
    omega
  case h_14 hm =>
    split at h <;> cases h
    · refine load_goto hm rfl rfl rfl ?_
      simp only [Main.load]
      omega
    · refine load_goto hm rfl rfl rfl ?_
      simp only [Main.load]
      omega
  case h_15 hm =>
    split_ifs at h <;> cases h
    · refine load_goto hm rfl rfl rfl ?_
      simp only [Main.load]
      omega
    · refine load_goto hm rfl rfl rfl ?_
      simp only [Main.load]
      omega
  case h_16 fd c interest rest hm =>
    cases h
    have hrank := beginPc_rank interest
    simp only [load, hm, Main.load, List.map_append, List.sum_append, List.map_singleton,
      List.sum_singleton]
    omega
  case h_17 fd pc caller hm =>
    obtain ⟨⟨s₁, pc'⟩, hperform, rfl⟩ := Option.map_eq_some_iff.1 h
    have hrank : ∀ q ∈ pc', q.rank < pc.rank := by
      rintro q rfl
      exact (perform_rank hperform).resolve_right Bool.false_ne_true
    have hqueue : s₁.queue = s.queue := by rw [perform_eq hperform]
    have htasks : s₁.tasks = s.tasks := by rw [perform_eq hperform]
    have hle : _ ≤ (Main.closing fd pc caller).load := load_closing hrank
    refine load_goto (m := pc'.elim caller.main fun pc' => .closing fd pc' caller) hm ?_ hqueue
      htasks (by omega)
    cases pc' <;> rfl
  case h_18 hm =>
    cases h
    refine load_goto hm rfl rfl rfl ?_
    simp only [Main.load, credit, hm, if_true, TimerHeap.popExpired]
    omega
  case h_20 hm =>
    cases h
    refine load_goto hm rfl rfl rfl ?_
    simp only [Main.load, closeBegin_rank, List.length_cons]
    omega
  case h_22 hm =>
    obtain ⟨-, h⟩ := Option.ite_none_right_eq_some.1 h
    cases h
    exact load_goto hm rfl rfl rfl (by simp only [Main.load]; omega)
  case h_23 hm =>
    cases h
    refine load_goto hm rfl rfl rfl ?_
    simp only [Main.load]
    omega
  case h_24 => cases h
  all_goals
    rename_i hm
    cases h
    refine load_goto hm rfl rfl rfl ?_
    simp only [Main.load, List.length_cons, List.length_nil, credit]
    omega

/-- The bytes that move pay for another round of the loop. -/
theorem perform_moves {fd : Fd} {pc q : Pc ConnId} {r : Sys}
    (h : s.perform idle fd (pc.code reply) r = some (s', some q)) :
    q.rank + 1 ≤ pc.rank + 3 * r.movesBytes.toNat := by
  cases handler_cases h <;> simp [Pc.rank, Sys.movesBytes]

/-- Each step of a worker is paid for, by the work under way or by the bytes that move. -/
theorem task_load {i : ℕ} {r : Sys} (h : s.step reply idle (.task i r) = some s') :
    s'.load + 1 ≤ s.load + 3 * r.movesBytes.toNat := by
  obtain ⟨l₁, t, l₂, s₁, pc, htasks, -, hperform, rfl⟩ := taskStep_cases h
  have hqueue : s₁.queue = s.queue := by rw [perform_eq hperform]
  have hmain : s₁.main = s.main := by rw [perform_eq hperform]
  simp only [load, hqueue, hmain, htasks]
  cases pc with
  | none =>
    simp only [Option.map_none, Option.toList_none, List.append_nil, List.map_append, List.map_cons,
      List.sum_append, List.sum_cons]
    omega
  | some q =>
    simp only [Option.map_some, Option.toList_some, List.map_append, List.map_cons, List.map_nil,
      List.sum_append, List.sum_cons, List.sum_nil]
    have hmoves := perform_moves hperform
    omega

/-- What is left to do is paid for. -/
def Settled (s : HttpServer Q) (m : Bill) : Prop := m.steps + s.load ≤ 4 + m.paid

theorem Settled.step (hs : Settled s m) {l : Label} (h : s.step reply idle l = some s') :
    Settled s' (bill m s l) := by
  unfold Settled at hs ⊢
  cases l with
  | tick d => cases h; exact hs
  | requestStop => cases h; exact hs
  | main r =>
    have hload := main_load h
    obtain ⟨hsteps, hpaid⟩ := bill_main m s r
    omega
  | start =>
    obtain ⟨t, queue, hqueue, rfl⟩ := start_cases h
    simp only [load, hqueue, List.map_cons, List.sum_cons, List.map_append, List.sum_append,
      List.map_nil, List.sum_nil, bill, Bill.paid] at hs ⊢
    omega
  | task i r =>
    have hload := task_load h
    simp only [bill, Bill.paid] at hs ⊢
    omega

/-- **Every step has a reason.**  In every run the number of steps of the main thread and of all
workers is at most linear in what the kernel has given to the server: the returns of `epoll_wait`,
the events, the clients, the expired timers, and the results of `read` and `writev` with bytes. -/
theorem steps_le (h : ((lts reply idle).record {} bill).Reachable (s, m)) :
    m.steps ≤ 4 + 8 * m.wakeups + 20 * m.events + 3 * m.accepted + 6 * m.expired + 3 * m.moves := by
  have hs : Settled s m :=
    LTS.record_invariant (I := Settled) h (Nat.le_refl 4) fun _ _ _ _ _ hs hstep => hs.step hstep
  rw [Settled, Bill.paid] at hs
  omega

theorem steps_le_answered :
    ∃ s m, (sample.record {} bill).Reachable (s, m) ∧ m.moves = 1 ∧ m.steps = 28 ∧
      28 ≤ 4 + 8 * m.wakeups + 20 * m.events + 3 * m.accepted + 6 * m.expired + 3 * m.moves := by
  obtain ⟨⟨s, m⟩, hrun, hmoves, hsteps⟩ :
      ∃ p ∈ (sample.record {} bill).run (sample.record {} bill).init answeredRun,
        p.2.moves = 1 ∧ p.2.steps = 28 := by decide +kernel
  have h := LTS.reachable_of_run hrun
  exact ⟨s, m, h, hmoves, hsteps, hsteps ▸ steps_le h⟩

end Step

end HttpServer

end MiniServer
