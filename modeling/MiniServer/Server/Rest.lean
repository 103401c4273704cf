import Mathlib.Data.Prod.Lex
import MiniServer.LTS.Progress
import MiniServer.Server.Descent

/-!
# What is left to the server

While the clients are silent, each step of the server leaves it less to do (`serves_rank`), and one
that is not at rest has a step (`task_enabled`, `exists_serves`).  Once it no longer runs, the same
is true of all its steps up to the end of `stop` (`alone_rank`, `exists_alone`).

Passes of `eventLoop` without events have no end, because `epoll_wait` times out.  They are idle
steps, as long as no event can be delivered.  When one can, the pass leads to the call of
`epoll_wait` that delivers it, and is counted (`alertPass`).
-/

namespace MiniServer

/-- An empty request does not parse, and its answer closes the connection. -/
theorem Site.closeAfterWrite_reply_nil (site : Site Id) :
    (site.reply []).closeAfterWrite = true := by
  have hparse : (({} : HttpRequest).parse []).1 = false := by decide
  unfold reply answer
  split
  · rfl
  · rename_i hrequest
    rw [hrequest] at hparse
    cases hparse

namespace Network

variable {Q : Type}

/-- Some descriptor has an event to deliver. -/
def Alert (n : Network Q) : Prop := ∃ fd, n.signals fd = true

/-- The steps for the clients, while these are silent and none connects.  `epoll_wait` does not
return without events while one can be delivered. -/
def Serves (n : Network Q) : NetLabel → Prop
  | .server .start | .server (.task _ _) => True
  | .server (.main r) => (∀ fd ip, r ≠ .accepted fd ip) ∧ .listen ∉ r.brings ∧
      (n.server.main.busy = true ∨ r.brings ≠ [] ∨ n.Alert ∧ n.server.main ≠ .wait)
  | _ => False

/-- The steps for nobody: time passes, `epoll` tidies its list, and the main thread has no event to
handle. -/
def Idle (n : Network Q) : NetLabel → Prop
  | .server (.tick _) | .skip _ => True
  | .server (.main r) => n.server.main.busy = false ∧ r.brings = [] ∧ ¬ n.Alert
  | _ => False

/-- The steps of the server while the clients are silent and none connects. -/
def Alone : NetLabel → Prop
  | .server .start | .server (.task _ _) => True
  | .server (.main r) => (∀ fd ip, r ≠ .accepted fd ip) ∧ .listen ∉ r.brings
  | _ => False

/-- Time passes, or `epoll` tidies its list. -/
def Passive : NetLabel → Prop
  | .server (.tick _) | .skip _ => True
  | _ => False

/-- Nothing is left to do for the clients. -/
structure AtRest (n : Network Q) : Prop where
  main : n.server.main.busy = false
  queue : n.server.queue = []
  tasks : n.server.tasks = []
  silent : ¬ n.Alert

/-- `stop` has returned, and nothing is left of the server. -/
structure Stopped (n : Network Q) : Prop where
  main : n.server.main = .stopped
  queue : n.server.queue = []
  tasks : n.server.tasks = []
  closed : ∀ fd, n.server.owner fd = none

variable {n n' : Network Q} {fds : Finset Fd}

/-! ### The sockets -/

/-- `read` has a result. -/
theorem exists_reads (n : Network Q) (fd : Fd) :
    ∃ r, n.reads fd r = true ∧ n.server.canRead fd r = true := by
  cases hfile : n.server.files fd with
  | none => exact ⟨.error, by simp [reads, HttpServer.owner, hfile], rfl⟩
  | some file =>
    have howner : n.server.owner fd = some file.owner := by rw [HttpServer.owner, hfile]; rfl
    cases hreset : (n.peers file.owner).reset with
    | true => exact ⟨.error, by simp [reads, howner, hreset], rfl⟩
    | false =>
      by_cases hinbox : n.inbox file.owner = []
      · cases hshut : (n.peers file.owner).shut with
        | true => exact ⟨.eof, by simp [reads, howner, hinbox, hshut], by
            simp [HttpServer.canRead, hfile]⟩
        | false => exact ⟨.again, by simp [reads, howner, hinbox, hshut, hreset], by
            simp [HttpServer.canRead, hfile]⟩
      · exact ⟨.data (n.inbox file.owner), by simp [reads, howner, List.isPrefixOf_iff_prefix], by
          simp [HttpServer.canRead, hfile, hinbox]⟩

/-- `writev` has a result when there is something to write. -/
theorem exists_writes (n : Network Q) (fd : Fd) {iov : List Bytes} (hiov : iov.flatten ≠ []) :
    ∃ r, n.writes fd r = true ∧ n.server.canWrite fd iov r = true := by
  cases hfile : n.server.files fd with
  | none => exact ⟨.error, by simp [writes, HttpServer.owner, hfile], rfl⟩
  | some file =>
    have howner : n.server.owner fd = some file.owner := by rw [HttpServer.owner, hfile]; rfl
    cases hreset : (n.peers file.owner).reset with
    | true => exact ⟨.error, by simp [writes, howner, hreset], rfl⟩
    | false =>
      cases hroom : n.room file.owner with
      | zero => exact ⟨.again, by simp [writes, howner, hroom, hreset], by
          simp [HttpServer.canWrite, hfile]⟩
      | succ k =>
        have hpos := List.length_pos_iff.2 hiov
        exact ⟨.wrote 1, by simp [writes, howner, hroom], by
          simp only [HttpServer.canWrite, hfile, Option.isSome_some, Bool.true_and,
            Nat.one_pos, decide_true, decide_eq_true_eq]
          omega⟩

/-- When `stop` has returned, no descriptor is open. -/
theorem none_open (hs : HttpServer.Closable n.server) (hstopped : n.server.main = .stopped)
    (fd : Fd) : n.server.owner fd = none := by
  have hbalance := hs.balance fd
  obtain ⟨hqueue, htasks⟩ := hs.joined (.inr hstopped)
  rw [HttpServer.holders, hs.emptied hstopped, hstopped, hqueue, htasks] at hbalance
  cases howner : n.server.owner fd with
  | none => rfl
  | some c =>
    rw [howner] at hbalance
    cases hbalance

theorem Sound.alert_iff (hn : Sound fds n) : n.Alert ↔ ∃ fd ∈ fds, n.signals fd = true := by
  refine ⟨fun ⟨fd, hsignals⟩ => ⟨fd, hn.opened fd ?_, hsignals⟩, fun ⟨fd, _, hsignals⟩ =>
    ⟨fd, hsignals⟩⟩
  rw [signals, Bool.and_eq_true] at hsignals
  cases howner : n.server.owner fd with
  | none => simp [howner] at hsignals
  | some c => rfl

/-! ### The measure -/

/-- What is left to do, and `pass` if it comes to that. -/
def rank (fds : Finset Fd) (pass : ℕ) (n : Network Q) : ℕ ×ₗ ℕ ×ₗ ℕ :=
  toLex (n.supply fds, toLex (n.work fds, pass))

theorem Less.rank_lt {pass pass' : ℕ} (h : Less fds n n') :
    n'.rank fds pass' < n.rank fds pass := by
  simp only [rank, Prod.Lex.toLex_lt_toLex']
  rcases h with hsupply | ⟨hsupply, hwork⟩
  · exact ⟨hsupply.le, fun heq => absurd heq hsupply.ne⟩
  · exact ⟨hsupply, fun _ => ⟨hwork.le, fun heq => absurd heq hwork.ne⟩⟩

theorem Passes.rank_lt {pass pass' : ℕ} (h : Passes fds n n') (hpass : pass' < pass) :
    n'.rank fds pass' < n.rank fds pass := by
  simp only [rank, Prod.Lex.toLex_lt_toLex']
  exact ⟨h.supply, fun _ => ⟨h.work, fun _ => hpass⟩⟩

theorem Passes.rank_le {pass pass' : ℕ} (h : Passes fds n n') (hpass : pass' ≤ pass) :
    n'.rank fds pass' ≤ n.rank fds pass := by
  simp only [rank, Prod.Lex.toLex_le_toLex']
  exact ⟨h.supply, fun _ => ⟨h.work, fun _ => hpass⟩⟩

section Steps

variable [PriorityQueue Q (TimerHeap.Node Fd ℕ) TimerHeap.later]
variable {reply : Bytes → Answer} {idle : ℕ} {s' : HttpServer Q}

/-! ### A thread has a step -/

theorem exists_step {l : Label} (hallows : n.allows l = true)
    (h : (n.server.step reply idle l).isSome = true) :
    ∃ n', n.step reply idle (.server l) = some n' := by
  obtain ⟨s', hs'⟩ := Option.isSome_iff_exists.1 h
  exact ⟨n.after s', by simp only [step, hallows, hs', if_true]; rfl⟩

/-- A task has a step. -/
theorem task_enabled (reply : Bytes → Answer) (idle : ℕ) (hn : Sound fds n) {t : Task}
    {rest : List Task} (ht : n.server.tasks = t :: rest) :
    ∃ r n', n.step reply idle (.server (.task 0 r)) = some n' := by
  have hsound := hn.server.task t (List.mem_append_right _ (ht ▸ List.mem_cons_self))
  have hperforms : ∀ r, n.allows (.task 0 r) = true →
      (n.server.perform idle t.fd (t.pc.code reply) r).isSome = true →
      ∃ r n', n.step reply idle (.server (.task 0 r)) = some n' := by
    intro r hallows hperform
    have hstep : (n.server.step reply idle (.task 0 r)).isSome = true := by
      simpa [HttpServer.step, stepThread, ht, HttpServer.taskStep] using hperform
    obtain ⟨n', hn'⟩ := exists_step hallows hstep
    exact ⟨r, n', hn'⟩
  have hfirst : n.server.tasks[0]? = some t := by rw [ht]; rfl
  cases hpc : t.pc with
  | read c =>
    obtain ⟨r, hreads, hcan⟩ := exists_reads n t.fd
    refine hperforms (.read r) ?_ ?_
    · rw [allows, hfirst]
      exact hreads
    · simp [hpc, Pc.code, HttpServer.perform, hcan]
  | writev c iov =>
    obtain ⟨r, hwrites, hcan⟩ := exists_writes n t.fd (hsound.iov c iov hpc)
    refine hperforms (.write r) ?_ ?_
    · rw [allows, hfirst]
      exact hwrites
    · simp [hpc, Pc.code, HttpServer.perform, hcan]
  | closeBegin =>
    refine hperforms .done rfl ?_
    rw [hpc]
    simp only [Pc.code, HttpServer.perform]
    cases n.server.connections.lookup t.fd <;> rfl
  | _ =>
    refine hperforms .done rfl ?_
    rw [hpc]
    rfl

/-- A worker takes a task from the queue. -/
theorem start_enabled (reply : Bytes → Answer) (idle : ℕ) (hqueue : n.server.queue ≠ []) :
    ∃ n', n.step reply idle (.server .start) = some n' := by
  obtain ⟨t, queue, hqueue⟩ := List.exists_cons_of_ne_nil hqueue
  exact exists_step rfl (by simp [HttpServer.step, hqueue])

/-- The main thread has a step unless it waits for events or has returned. -/
theorem main_enabled (reply : Bytes → Answer) (idle : ℕ) (hn : n.server.Sound)
    (hwait : n.server.main ≠ .wait) (hstopped : n.server.main ≠ .stopped)
    (hqueue : n.server.queue = []) (htasks : n.server.tasks = []) :
    ∃ r n', (r = .done ∨ r = .refused) ∧ n.step reply idle (.server (.main r)) = some n' := by
  have hstep : ∀ r, r = .done ∨ r = .refused → (n.server.mainStep reply idle r).isSome = true →
      ∃ r n', (r = .done ∨ r = .refused) ∧ n.step reply idle (.server (.main r)) = some n' := by
    intro r hr h
    have hallows : n.allows (.main r) = true := by rcases hr with rfl | rfl <;> rfl
    have hstep : (n.server.step reply idle (.main r)).isSome = true := h
    obtain ⟨n', hn'⟩ := exists_step hallows hstep
    exact ⟨r, n', hr, hn'⟩
  cases hm : n.server.main with
  | wait => exact absurd hm hwait
  | stopped => exact absurd hm hstopped
  | accept rest => exact hstep .refused (.inr rfl) (by simp [HttpServer.mainStep, hm])
  | events rest =>
    refine hstep .done (.inl rfl) ?_
    simp only [HttpServer.mainStep, hm]
    rcases rest with _ | ⟨_ | ⟨fd', _ | _ | _⟩, rest⟩ <;> rfl
  | dispatch fd i rest =>
    refine hstep .done (.inl rfl) ?_
    simp only [HttpServer.mainStep, hm]
    split <;> rfl
  | begin fd c i rest =>
    refine hstep .done (.inl rfl) ?_
    simp only [HttpServer.mainStep, hm]
    split_ifs <;> rfl
  | closing fd pc caller =>
    refine hstep .done (.inl rfl) ?_
    simp only [HttpServer.mainStep, hm, Option.isSome_map]
    rcases (hn.closing fd pc caller hm).1 with rfl | hpast
    · simp only [Pc.code, HttpServer.perform]
      split <;> rfl
    · cases pc <;> cases hpast <;> rfl
  | expired rest =>
    refine hstep .done (.inl rfl) ?_
    cases rest <;> simp [HttpServer.mainStep, hm]
  | join => exact hstep .done (.inl rfl) (by simp [HttpServer.mainStep, hm, hqueue, htasks])
  | _ => exact hstep .done (.inl rfl) (by simp [HttpServer.mainStep, hm])

/-- `epoll_wait` has an event to deliver. -/
theorem wait_enabled (reply : Bytes → Answer) (idle : ℕ) (hwait : n.server.main = .wait)
    (halert : n.Alert) : ∃ fd kind n',
      n.step reply idle (.server (.main (.events [.client fd kind]))) = some n' := by
  obtain ⟨fd, hsignals⟩ := halert
  rw [signals, Bool.and_eq_true] at hsignals
  obtain ⟨hready, hpolls⟩ := hsignals
  split at hpolls
  · rename_i c interest howner hreg
    obtain ⟨kind, hpossible, hfinds⟩ :
        ∃ kind : Kind, kind.possible interest = true ∧ n.finds c kind = true := by
      rw [polls, Bool.or_eq_true] at hpolls
      rcases hpolls with hpolls | hpolls
      · exact ⟨.hangup, rfl, hpolls⟩
      · exact ⟨interest.kind, by cases interest <;> rfl, hpolls⟩
    refine ⟨fd, kind, exists_step ?_ ?_⟩
    · simp [allows, delivers, hready, howner, hfinds]
    · have hreg : (n.server.files fd).bind File.epoll = some (some interest) := hreg
      simp [HttpServer.step, HttpServer.mainStep, hwait, HttpServer.deliverAll, HttpServer.deliver,
        hreg, hpossible]
  · cases hpolls

/-! ### A step lowers the measure -/

/-- A step of the main thread lowers what is left to do, or it belongs to a pass. -/
theorem main_pays {r : MainSys} (hn : Sound fds n) (hreply : (reply []).closeAfterWrite = true)
    (hr : ∀ fd ip, r ≠ .accepted fd ip) (hlisten : .listen ∉ r.brings)
    (hallows : n.allows (.main r) = true) (h : n.server.mainStep reply idle r = some s') :
    Less fds n (n.after s') ∨ n.server.main.busy = false ∧ r.brings = [] ∧
      Passes fds n (n.after s') ∧
      (s'.passing < n.server.passing ∨ n.server.main = .wait ∧ n.server.running = true) := by
  cases hbusy : n.server.main.busy with
  | true => exact .inl (less_main hn hreply hbusy hr h)
  | false =>
    by_cases hnone : r.brings = []
    · exact .inr ⟨rfl, hnone, pass_main hn hbusy hnone h⟩
    · cases r with
      | events evs =>
        obtain ⟨ev, evs, rfl⟩ := List.exists_cons_of_ne_nil hnone
        cases hm : n.server.main with
        | wait =>
          simp only [HttpServer.mainStep, hm] at h
          obtain ⟨s₁, hev, rfl⟩ := Option.map_eq_some_iff.1 h
          exact .inl (less_wait hn.opened hlisten hallows hm hev rfl)
        | _ => simp [HttpServer.mainStep, hm] at h
      | _ => exact absurd rfl hnone

/-! ### Rest -/

/-- What a pass counts: nothing, unless there is an event to come to. -/
def alertPass (fds : Finset Fd) (n : Network Q) : ℕ :=
  if ∃ fd ∈ fds, n.signals fd = true then n.server.passing else 0

theorem Passes.alertPass_le (h : Passes fds n n')
    (hpassing : n'.server.passing ≤ n.server.passing) : n'.alertPass fds ≤ n.alertPass fds := by
  unfold alertPass
  split_ifs with halert' halert
  · exact hpassing
  · obtain ⟨fd, hfd, hsignals⟩ := halert'
    exact absurd ⟨fd, hfd, h.signals fd hsignals⟩ halert
  · exact Nat.zero_le _
  · exact le_rfl

theorem serves_rank {l : NetLabel} (hn : Sound fds n) (hreply : (reply []).closeAfterWrite = true)
    (hl : n.Serves l) (h : n.step reply idle l = some n') :
    n'.rank fds (n'.alertPass fds) < n.rank fds (n.alertPass fds) := by
  cases l with
  | server l =>
    obtain ⟨s', hallows, hserver, rfl⟩ := exists_after h
    cases l with
    | start => exact (less_start hserver).rank_lt
    | task i r => exact (less_task hn hreply hallows hserver).rank_lt
    | main r =>
      obtain ⟨hr, hlisten, hserves⟩ := hl
      rcases main_pays hn hreply hr hlisten hallows hserver with
        hless | ⟨hbusy, hnone, hpasses, hpassing⟩
      · exact hless.rank_lt
      · -- an event waits to be delivered, and the pass leads to it
        obtain ⟨halert, hwait⟩ : n.Alert ∧ n.server.main ≠ .wait := by
          rcases hserves with hserves | hserves | hserves
          · rw [hbusy] at hserves
            cases hserves
          · exact absurd hnone hserves
          · exact hserves
        have hpassing := hpassing.resolve_right fun hwaits => hwait hwaits.1
        refine hpasses.rank_lt ?_
        rw [alertPass, alertPass, if_pos (hn.alert_iff.1 halert)]
        split_ifs
        · exact hpassing
        · exact Nat.zero_lt_of_lt hpassing
    | tick d => exact hl.elim
    | requestStop => exact hl.elim
  | _ => exact hl.elim

omit [PriorityQueue Q (TimerHeap.Node Fd ℕ) TimerHeap.later] in
theorem idle_of_passive {l : NetLabel} (hl : Passive l) : n.Idle l := by
  cases l with
  | server l => cases l <;> first | exact trivial | exact hl.elim
  | _ => first | exact trivial | exact hl.elim

theorem passes_of_passive {l : NetLabel} (hl : Passive l) (h : n.step reply idle l = some n') :
    Passes fds n n' := by
  cases l with
  | skip fd => exact (pass_skip h).1
  | server l =>
    obtain ⟨s', -, hserver, rfl⟩ := exists_after h
    cases l with
    | tick d => exact pass_tick (Option.some.inj hserver).symm
    | _ => exact hl.elim
  | _ => exact hl.elim

/-- While only time passes, or `epoll` tidies its list, the main thread stays where it is. -/
theorem main_of_passive {l : NetLabel} (hl : Passive l) (h : n.step reply idle l = some n') :
    n'.server.main = n.server.main ∧ n'.server.passing ≤ n.server.passing := by
  cases l with
  | skip fd =>
    obtain ⟨-, ⟨⟩⟩ := Option.ite_none_left_eq_some.1 h
    exact ⟨rfl, le_rfl⟩
  | server l =>
    obtain ⟨s', -, hserver, rfl⟩ := exists_after h
    cases l with
    | tick d =>
      cases hserver
      exact ⟨rfl, le_rfl⟩
    | _ => exact hl.elim
  | _ => exact hl.elim

/-- A step of nobody brings no event; the main thread moves only when there is none. -/
theorem idle_cases {l : NetLabel} (hn : Sound fds n) (hl : n.Idle l)
    (h : n.step reply idle l = some n') : Passes fds n n' ∧ (Passive l ∨ ¬ n.Alert) := by
  cases l with
  | skip fd =>
    have hpassive : Passive (.skip fd) := trivial
    exact ⟨passes_of_passive hpassive h, .inl hpassive⟩
  | server l =>
    cases l with
    | tick d =>
      have hpassive : Passive (.server (.tick d)) := trivial
      exact ⟨passes_of_passive hpassive h, .inl hpassive⟩
    | main r =>
      obtain ⟨hbusy, hnone, halert⟩ := hl
      obtain ⟨s', -, hserver, rfl⟩ := exists_after h
      exact ⟨(pass_main hn hbusy hnone hserver).1, .inr halert⟩
    | _ => exact hl.elim
  | _ => exact hl.elim

theorem idle_rank {l : NetLabel} (hn : Sound fds n) (hl : n.Idle l)
    (h : n.step reply idle l = some n') :
    n'.rank fds (n'.alertPass fds) ≤ n.rank fds (n.alertPass fds) := by
  obtain ⟨hpasses, hpassive | halert⟩ := idle_cases hn hl h
  · have hpassing := (main_of_passive hpassive h).2
    exact hpasses.rank_le (hpasses.alertPass_le hpassing)
  · refine hpasses.rank_le ?_
    have halert' : ¬ ∃ fd ∈ fds, n'.signals fd = true := fun ⟨fd, _, hsignals⟩ =>
      halert ⟨fd, hpasses.signals fd hsignals⟩
    rw [alertPass, if_neg halert']
    exact Nat.zero_le _

/-! ### Runs -/

theorem closable_step {l : NetLabel} (hs : HttpServer.Closable n.server)
    (h : n.step reply idle l = some n') : HttpServer.Closable n'.server := by
  rcases server_or_eq h with ⟨l, rfl⟩ | hsame
  · exact hs.step (server_cases h).2.1
  · rwa [hsame]

theorem Idle.not_accepted {l : NetLabel} (hl : n.Idle l) (h : n.step reply idle l = some n')
    (fd : Fd) (ip : Bytes) : l ≠ .server (.main (.accepted fd ip)) := by
  rintro rfl
  obtain ⟨s', -, hserver, -⟩ := exists_after h
  obtain ⟨hbusy, -⟩ := hl
  cases HttpServer.mainStep_cases hserver with
  | accepted hm _ _ =>
    rw [hm] at hbusy
    cases hbusy
  | _ hm => simp [HttpServer.step, HttpServer.mainStep, hm] at hserver

/-- When no task is left, the main thread of a server that is not at rest has a step for the
clients. -/
theorem exists_serves (reply : Bytes → Answer) (idle : ℕ) (hn : Sound fds n)
    (hs : HttpServer.Closable n.server) (hqueue : n.server.queue = [])
    (htasks : n.server.tasks = []) (hrest : ¬ n.AtRest) :
    ∃ r n', n.Serves (.server (.main r)) ∧ n.step reply idle (.server (.main r)) = some n' := by
  have hmain : ∀ r, r = .done ∨ r = .refused →
      n.server.main.busy = true ∨ n.Alert ∧ n.server.main ≠ .wait →
        n.Serves (.server (.main r)) := by
    rintro r (rfl | rfl) hserves
    · exact ⟨by simp, List.not_mem_nil, hserves.imp_right .inr⟩
    · exact ⟨by simp, List.not_mem_nil, hserves.imp_right .inr⟩
  cases hbusy : n.server.main.busy with
  | true =>
    obtain ⟨r, n', hr, hn'⟩ := main_enabled reply idle hn.server
      (by rintro hm; rw [hm] at hbusy; cases hbusy)
      (by rintro hm; rw [hm] at hbusy; cases hbusy) hqueue htasks
    exact ⟨r, n', hmain r hr (.inl hbusy), hn'⟩
  | false =>
    have halert : n.Alert := by
      by_contra halert
      exact hrest ⟨hbusy, hqueue, htasks, halert⟩
    by_cases hwait : n.server.main = .wait
    · obtain ⟨fd, kind, n', hn'⟩ := wait_enabled reply idle hwait halert
      have hserves : n.Serves (.server (.main (.events [.client fd kind]))) :=
        ⟨by simp, by simp [MainSys.brings], .inr (.inl (by simp [MainSys.brings]))⟩
      exact ⟨_, n', hserves, hn'⟩
    · have hstopped : n.server.main ≠ .stopped := by
        intro hm
        obtain ⟨fd, hsignals⟩ := halert
        simp [signals, none_open hs hm fd] at hsignals
      obtain ⟨r, n', hr, hn'⟩ := main_enabled reply idle hn.server hwait hstopped hqueue htasks
      exact ⟨r, n', hmain r hr (.inr ⟨halert, hwait⟩), hn'⟩

/-! ### `stop` -/

theorem running_step {s s' : HttpServer Q} {l : Label} (h : s.step reply idle l = some s')
    (hs : s.running = false) : s'.running = false := by
  cases l with
  | tick d => cases h; exact hs
  | requestStop => cases h; rfl
  | start =>
    obtain ⟨t, queue, -, rfl⟩ := HttpServer.start_cases h
    exact hs
  | task i r =>
    obtain ⟨l₁, t, l₂, s₁, pc, -, -, hperform, rfl⟩ := HttpServer.taskStep_cases h
    have hrunning : s₁.running = s.running := by rw [HttpServer.perform_eq hperform]
    exact hrunning.trans hs
  | main r =>
    cases HttpServer.mainStep_cases h with
    | wait _ hev _ =>
      obtain ⟨files, rfl⟩ := HttpServer.deliverAll_eq hev
      exact hs
    | @close _ _ _ s₁ _ _ hperform =>
      have hrunning : s₁.running = s.running := by rw [HttpServer.perform_eq hperform]
      exact hrunning.trans hs
    | stop _ => rfl
    | _ => exact hs

theorem alone_rank {l : NetLabel} (hn : Sound fds n) (hreply : (reply []).closeAfterWrite = true)
    (hrunning : n.server.running = false) (hl : Alone l) (h : n.step reply idle l = some n') :
    n'.rank fds n'.server.passing < n.rank fds n.server.passing := by
  cases l with
  | server l =>
    obtain ⟨s', hallows, hserver, rfl⟩ := exists_after h
    cases l with
    | start => exact (less_start hserver).rank_lt
    | task i r => exact (less_task hn hreply hallows hserver).rank_lt
    | main r =>
      rcases main_pays hn hreply hl.1 hl.2 hallows hserver with hless | ⟨-, -, hpasses, hpassing⟩
      · exact hless.rank_lt
      · refine hpasses.rank_lt (hpassing.resolve_right fun hwaits => ?_)
        rw [hwaits.2] at hrunning
        cases hrunning
    | tick d => exact hl.elim
    | requestStop => exact hl.elim
  | _ => exact hl.elim

theorem passive_rank {l : NetLabel} (hl : Passive l) (h : n.step reply idle l = some n') :
    n'.rank fds n'.server.passing ≤ n.rank fds n.server.passing :=
  (passes_of_passive hl h).rank_le (main_of_passive hl h).2

/-- When no task is left, the main thread of a server that has not stopped has a step. -/
theorem exists_alone (reply : Bytes → Answer) (idle : ℕ) (hn : Sound fds n)
    (hs : HttpServer.Closable n.server) (hqueue : n.server.queue = [])
    (htasks : n.server.tasks = []) (hstopped : ¬ n.Stopped) :
    ∃ r n', Alone (.server (.main r)) ∧ n.step reply idle (.server (.main r)) = some n' := by
  by_cases hwait : n.server.main = .wait
  · obtain ⟨n', hn'⟩ : ∃ n', n.step reply idle (.server (.main (.events []))) = some n' :=
      exists_step rfl
        (by simp [HttpServer.step, HttpServer.mainStep, hwait, HttpServer.deliverAll])
    exact ⟨.events [], n', ⟨by simp, List.not_mem_nil⟩, hn'⟩
  · have hmain : n.server.main ≠ .stopped := fun hm =>
      hstopped ⟨hm, hqueue, htasks, none_open hs hm⟩
    obtain ⟨r, n', hr, hn'⟩ := main_enabled reply idle hn.server hwait hmain hqueue htasks
    refine ⟨r, n', ?_, hn'⟩
    rcases hr with rfl | rfl
    · exact ⟨by simp, List.not_mem_nil⟩
    · exact ⟨by simp, List.not_mem_nil⟩

end Steps

end Network

end MiniServer
