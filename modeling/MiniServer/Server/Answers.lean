import MiniServer.Handler.Outcome
import MiniServer.Http.HeaderLines
import MiniServer.Server.Activity
import MiniServer.Server.Serving

/-!
# What a client of the server gets

`responses_in_order`: a client that nothing disturbs gets the responses to its requests, in order,
each once and complete, up to the first that says `Connection: close`; the server closes the
connection then and only then.

`answered_before_close`: a client that ends its stream gets all of them too, provided that `read`
returns 0 only when no complete request waits in the buffer.  `dropped_at_end` shows that the
proviso is needed: `handleRead` closes the connection as soon as `read` returns 0, and drops the
requests it has appended.
-/

namespace MiniServer

open Session (due replies)

open Classical in
/-- The complete responses to the first `n` requests of a stream, none after the first one that says
`Connection: close`. -/
noncomputable def Site.responses (site : Site Id) (n : ℕ) (stream : Bytes) : List Bytes :=
  through SaysClose ((Connection.requests n stream).map fun raw => (site.reply raw).bytes)

namespace Site

variable (site : Site Id) (n : ℕ) (stream : Bytes)

open Classical in
theorem responses_eq : site.responses n stream =
    (due site.reply (Connection.requests n stream)).map fun raw => (site.reply raw).bytes :=
  through_map site.saysClose_reply_iff _

theorem flatten_responses : (site.responses n stream).flatten =
    replies site.reply (due site.reply (Connection.requests n stream)) := by
  rw [responses_eq]
  rfl

theorem exists_saysClose : (∃ r ∈ site.responses n stream, SaysClose r) ↔
    ∃ raw ∈ due site.reply (Connection.requests n stream),
      (site.reply raw).closeAfterWrite = true := by
  rw [responses_eq]
  simp only [List.mem_map, exists_exists_and_eq_and, saysClose_reply_iff]

end Site

namespace HttpServer

variable {Q : Type} {site : Site Id}

/-- All responses to the first `m` requests of a stream are written to the socket of `c`, and one of
them says `Connection: close`. -/
def Sent (site : Site Id) (s : HttpServer Q) (c : ConnId) (stream : Bytes) (m : ℕ) : Prop :=
  s.written c = (site.responses m stream).flatten ∧ ∃ r ∈ site.responses m stream, SaysClose r

theorem sent_iff {s : HttpServer Q} {c : ConnId} {stream : Bytes} {m : ℕ} :
    Sent site s c stream m ↔ Session.Complete site.reply stream m (s.session c) := by
  rw [Sent, Site.flatten_responses, Site.exists_saysClose]
  rfl

/-! ### What is known of a session that nothing disturbs -/

section Parts

variable {s : HttpServer Q} {fd : Fd} {c : ConnId} {eof : Connection → Prop} {stream : Bytes}

theorem Serving.written_prefix (hs : Serving site.reply eof fd s) (hc : s.latest fd = some c)
    (hstream : s.received c <+: stream) :
    ∃ n, ∀ m, n ≤ m → s.written c <+: (site.responses m stream).flatten := by
  by_cases hm : ∀ ip rest, s.main ≠ .register fd ip rest
  · obtain ⟨p, hp⟩ := hs.exists_at fun _ => hm
    obtain ⟨done, hdone⟩ : ∃ done, Session.Ordered site.reply (s.session c) done := by
      have hfits := hs.fits c hc p hp
      cases hp with
      | gone _ _ => exact Session.Finished.ordered hfits
      | armed _ _ => exact Session.Awaits.ordered hfits
      | main _ _ => exact Session.Awaits.ordered hfits
      | task _ _ _ hactive => exact Session.Runs.ordered hactive hfits
    refine ⟨done.length, fun m hm => ?_⟩
    rw [Site.flatten_responses]
    exact hdone.written_prefix hstream hm
  · -- the connection is just accepted
    push Not at hm
    obtain ⟨ip, rest, hm⟩ := hm
    obtain ⟨hlatest, -⟩ := hs.single.owned.main.register fd ip rest hm
    rw [hlatest] at hc
    cases hc
    refine ⟨0, fun m _ => ?_⟩
    rw [(hs.unmade s.next le_rfl).2.1]
    exact List.nil_prefix

theorem Serving.sent_of_gone (hs : Serving site.reply (fun _ => False) fd s)
    (hc : s.latest fd = some c) (hstream : s.received c <+: stream)
    (hgone : s.connections.lookup fd = none) (hm : ∀ ip rest, s.main ≠ .register fd ip rest) :
    ∃ n, ∀ m, n ≤ m → Sent site s c stream m := by
  have hfinished := hs.fits c hc .gone (.gone hgone hm)
  obtain ⟨n, hn⟩ := Session.Finished.complete_of_closed hfinished hstream
  exact ⟨n, fun m hm => sent_iff.2 (hn m hm)⟩

theorem Serving.armed_input (hs : Serving site.reply eof fd s) (hc : s.latest fd = some c)
    (hlookup : s.connections.lookup fd = some c) (hreg : s.registration fd = some (some .input)) :
    (s.conns c).extractOneRequest = none ∧ ∃ n, ∀ m, n ≤ m →
      s.written c = (site.responses m (s.received c)).flatten ∧
        ∀ r ∈ site.responses m (s.received c), ¬ SaysClose r := by
  obtain ⟨done, hdone, hcut⟩ := hs.fits c hc _ (.armed hlookup hreg)
  refine ⟨Connection.extractOneRequest_eq_none_iff.2 hcut, done.length, fun m hm => ?_⟩
  have hdue := hdone.due_eq hcut hm
  refine ⟨?_, fun r hr hclose => ?_⟩
  · rw [Site.flatten_responses]
    exact hdone.written.trans (by rw [show s.received c = (s.session c).received from rfl, hdue])
  · obtain ⟨raw, hraw, hflag⟩ := (site.exists_saysClose m (s.received c)).1 ⟨r, hr, hclose⟩
    rw [show s.received c = (s.session c).received from rfl, hdue] at hraw
    exact hdone.keepsAlive.not_closes raw hraw hflag

theorem Serving.armed_output (hs : Serving site.reply eof fd s) (hc : s.latest fd = some c)
    (hstream : s.received c <+: stream) (hlookup : s.connections.lookup fd = some c)
    (hreg : s.registration fd = some (some .output)) :
    (s.conns c).unsent ≠ [] ∧ ∃ n, ∀ m, n ≤ m →
      s.written c ++ (s.conns c).unsent <+: (site.responses m stream).flatten := by
  obtain ⟨done, raw, hraw, hunsent⟩ := hs.fits c hc _ (.armed hlookup hreg)
  refine ⟨hunsent, (done ++ [raw]).length, fun m hm => ?_⟩
  rw [Site.flatten_responses]
  have hwritten : s.written c ++ (s.conns c).unsent = replies site.reply (done ++ [raw]) :=
    hraw.written
  rw [hwritten]
  exact Session.replies_mono (hraw.ordered.prefix_due hstream hm)

end Parts

section Step

variable [PriorityQueue Q (TimerHeap.Node Fd ℕ) TimerHeap.later] {idle : ℕ}

/-- A task behind the last byte of a response.  Every step brings it nearer to the section that
erases its connection. -/
def Leaving (reply : Bytes → Answer) (idle : ℕ) (s : HttpServer Q) (t : Task) : Prop :=
  t.pc.leadsToClose = true ∧
    ∀ i r s', s.tasks[i]? = some t → s.step reply idle (.task i r) = some s' →
      s'.connections.lookup t.fd = none ∨
        ∃ q : Pc ConnId, { t with pc := q } ∈ s'.tasks ∧ q.leadsToClose = true ∧
          q.rank < t.pc.rank

theorem perform_last {reply : Bytes → Answer} {s s₁ : HttpServer Q} {fd : Fd} {pc : Pc ConnId}
    {r : Sys} {pc' : Option (Pc ConnId)}
    (h : s.perform idle fd (pc.code reply) r = some (s₁, pc')) {c : ConnId}
    (hconn : ∀ c' ∈ pc.conn?, c' = c) (hlast : Session.Last (s.session c) pc) :
    s₁.connections.lookup fd = none ∨
      ∃ q, pc' = some q ∧ q.leadsToClose = true ∧ q.rank < pc.rank := by
  cases hlast with
  | consume =>
    cases handler_cases h
    exact .inr ⟨_, rfl, rfl, by simp [Pc.rank]⟩
  | @gather c' hempty =>
    obtain rfl := hconn c' rfl
    have hempty : (s.conns c').hasWriteData = false := hempty
    cases handler_cases h with
    | gather _ hmore => rw [hempty] at hmore; cases hmore
    | gatherEnd _ => exact .inr ⟨_, rfl, rfl, by simp [Pc.rank]⟩
  | @clear c' hclose =>
    obtain rfl := hconn c' rfl
    have hclose : (s.conns c').closeAfterWrite = true := hclose
    cases handler_cases h with
    | clearClose _ => exact .inr ⟨_, rfl, rfl, by simp [Pc.rank]⟩
    | clear hopen => rw [hclose] at hopen; cases hopen
  | closeBegin => exact .inl ((perform_close (.inl rfl) h).2 rfl)

theorem leaving_of_last {reply : Bytes → Answer} {s : HttpServer Q} {t : Task}
    (hconn : ∀ c ∈ t.pc.conn?, c = t.owner) (h : Session.Last (s.session t.owner) t.pc) :
    Leaving reply idle s t := by
  refine ⟨by generalize t.pc = pc at h; cases h <;> rfl, fun i r s' hi hstep => ?_⟩
  obtain ⟨l₁, t', l₂, s₁, pc', -, hi', hperform, rfl⟩ := taskStep_cases hstep
  obtain rfl : t = t' := Option.some.inj (hi.symm.trans hi')
  refine (perform_last hperform hconn h).imp id ?_
  rintro ⟨q, rfl, hq, hrank⟩
  exact ⟨q, by simp, hq, hrank⟩

/-- What is written completely is about to be closed. -/
theorem Serving.leaving {s : HttpServer Q} {fd : Fd} {c : ConnId} {eof : Connection → Prop}
    {stream : Bytes} (hs : Serving site.reply eof fd s) (hc : s.connections.lookup fd = some c)
    (hstream : s.received c <+: stream) {m : ℕ} (hsent : Sent site s c stream m) :
    ∃ t ∈ s.queue ++ s.tasks, t.fd = fd ∧ t.owner = c ∧ Leaving site.reply idle s t := by
  have hlatest := hs.single.latest hc
  have hcomplete := sent_iff.1 hsent
  obtain ⟨p, hp⟩ := hs.exists_at (by rw [hc]; rintro ⟨⟩)
  have hfits := hs.fits c hlatest p hp
  have hnot : ∀ {i}, ¬ Session.Awaits site.reply (s.session c) i := fun hwait =>
    hwait.not_complete site.reply_bytes_ne_nil hstream hcomplete
  cases hp with
  | gone hnone _ => rw [hc] at hnone; cases hnone
  | armed _ _ => exact absurd hfits hnot
  | main _ _ => exact absurd hfits hnot
  | @task t _ _ ht hfd hactive =>
    subst hfd
    have howned := hs.single.owned.task t ht
    have howner : t.owner = c := by
      have hattached := hs.single.attached t ht hactive
      rw [hlatest] at hattached
      exact (Option.some.inj hattached).symm
    subst howner
    have hpast : t.pc.pastErase = false := by
      by_contra hpast
      rw [howned.gone (by simpa using hpast)] at hc
      cases hc
    exact ⟨t, ht, rfl, rfl, leaving_of_last howned.conn
      (Session.Runs.last hfits hactive hpast site.reply_bytes_ne_nil hstream hcomplete)⟩

/-! ### A client that goes on reading -/

/-- **One response for each request, in order.** Let nothing disturb the session on `fd`, and let
the bytes read so far be the first ones of `stream`.  The bytes written are the first bytes of the
responses to `stream`, up to the first that says `Connection: close`.  When the connection is gone,
all of them are written, and one says so; while it is registered, it is open.  When all of them are
written and the connection is still registered, a task is about to close it.  While it is armed for
input, no complete request is left in the buffer, every complete request read is answered, and no
response said that the connection is closed; while it is armed for output, a part of a response is
unsent. -/
theorem responses_in_order {s : HttpServer Q} {fd : Fd}
    (h : (lts site.reply idle).ReachableIf (Undisturbed (fun _ => False) fd) s) {c : ConnId}
    (hc : s.latest fd = some c) {stream : Bytes} (hstream : s.received c <+: stream) :
    (∃ n, ∀ m, n ≤ m → s.written c <+: (site.responses m stream).flatten) ∧
    (s.connections.lookup fd = none → (∀ ip rest, s.main ≠ .register fd ip rest) →
      ∃ n, ∀ m, n ≤ m → Sent site s c stream m) ∧
    (∀ c', s.connections.lookup fd = some c' →
      c' = c ∧ (s.conns c).closed = false ∧ s.owner fd = some c) ∧
    (∀ m, Sent site s c stream m → s.connections.lookup fd = some c →
      ∃ t ∈ s.queue ++ s.tasks, t.fd = fd ∧ t.owner = c ∧ Leaving site.reply idle s t) ∧
    (s.connections.lookup fd = some c → s.registration fd = some (some .input) →
      (s.conns c).extractOneRequest = none ∧ ∃ n, ∀ m, n ≤ m →
        s.written c = (site.responses m (s.received c)).flatten ∧
          ∀ r ∈ site.responses m (s.received c), ¬ SaysClose r) ∧
    (s.connections.lookup fd = some c → s.registration fd = some (some .output) →
      (s.conns c).unsent ≠ [] ∧ ∃ n, ∀ m, n ≤ m →
        s.written c ++ (s.conns c).unsent <+: (site.responses m stream).flatten) := by
  have hs := serving_of_reachable site.reply_bytes_ne_nil h
  refine ⟨hs.written_prefix hc hstream, hs.sent_of_gone hc hstream, fun c' hlookup => ?_,
    fun m hsent hlookup => hs.leaving hlookup hstream hsent, hs.armed_input hc,
    hs.armed_output hc hstream⟩
  have hlatest := hs.single.latest hlookup
  rw [hc] at hlatest
  cases hlatest
  exact ⟨rfl, hs.single.opened fd c hlookup, hs.single.owned.table fd c hlookup⟩

/-- The response that waits is written in two parts, and the connection is closed. -/
def closedRun : List Label :=
  answeredRun ++ [.main .done, .main .done, .main .done, .main .done,
    .main (.events [.client 5 .output]), .main .done, .main .done, .main .done, .main .done,
    .start, .task 0 .done, .task 0 .done, .task 0 (.write (.wrote 1)), .task 0 .done,
    .task 0 .done, .task 0 (.write (.wrote 118)), .task 0 .done, .task 0 .done, .task 0 .done,
    .task 0 .done]

theorem responses_in_order_closed :
    ∃ s, sample.ReachableIf (Undisturbed (fun _ => False) 5) s ∧ s.written 0 = badRequest ∧
      ∃ n, ∀ m, n ≤ m → Sent Site.empty s 0 (.ofString "\r\n\r\n") m := by
  have hallowed : sample.Allowed (Undisturbed (fun _ => False) 5) sample.init closedRun := by
    decide +kernel
  obtain ⟨s, hrun, hlatest, hgone, hm, hreceived, hwritten⟩ :
      ∃ s ∈ sample.run sample.init closedRun, s.latest 5 = some 0 ∧
        s.connections.lookup 5 = none ∧ s.main = .events [] ∧
        s.received 0 = .ofString "\r\n\r\n" ∧ s.written 0 = badRequest := by decide +kernel
  have h := LTS.ReachableIf.run .init hallowed hrun
  have hstream : s.received 0 <+: Bytes.ofString "\r\n\r\n" := hreceived ▸ List.prefix_rfl
  obtain ⟨-, hsent, -⟩ := responses_in_order h hlatest hstream
  exact ⟨s, h, hwritten, hsent hgone (by simp [hm])⟩

/-! ### A client that ends its stream -/

/-- When the connection on `fd` is gone, all complete requests of its stream up to the first whose
response says `Connection: close` are answered.  Once `read` has returned 0, the stream is what was
read. -/
def AnsweredBeforeClose (site : Site Id) (s : HttpServer Q) (fd : Fd) : Prop :=
  ∀ c, s.latest fd = some c → s.connections.lookup fd = none →
    (∀ ip rest, s.main ≠ .register fd ip rest) → ∀ stream, s.received c <+: stream →
      (s.ended c = true → stream = s.received c) →
        ∀ m, (site.responses m stream).flatten <+: s.written c

/-- **A stream that ends behind its last complete request is answered.** If `read` returns 0 only
when `extractOneRequest` finds no request in the buffer, then every complete request is answered
before the connection is closed. -/
theorem answered_before_close {s : HttpServer Q} {fd : Fd}
    (h : (lts site.reply idle).ReachableIf
      (Undisturbed (fun conn => conn.extractOneRequest = none) fd) s) :
    AnsweredBeforeClose site s fd := by
  intro c hc hgone hm stream hstream hended m
  have hs := serving_of_reachable site.reply_bytes_ne_nil h
  have hfinished := hs.fits c hc .gone (.gone hgone hm)
  rw [Site.flatten_responses]
  exact Session.Finished.answered hfinished
    (fun conn => Connection.extractOneRequest_eq_none_iff.1) hstream hended m

/-- A request that keeps the connection alive. -/
def pageRequest : Bytes := .ofString "GET / HTTP/1.1\r\n\r\n"

/-- The request is read and answered, and then the stream ends. -/
def endedRun : List Label :=
  dispatchRun ++ [.start, .task 0 .done, .task 0 (.read (.data pageRequest)), .task 0 .done,
    .task 0 (.read .again), .task 0 .done, .task 0 .done, .task 0 .done, .task 0 .done,
    .task 0 .done, .task 0 .done, .task 0 .done, .main .done, .main .done, .main .done,
    .main .done, .main (.events [.client 5 .output]), .main .done, .main .done, .main .done,
    .main .done, .start, .task 0 .done, .task 0 .done, .task 0 (.write (.wrote 299)),
    .task 0 .done, .task 0 .done, .task 0 .done, .task 0 .done, .task 0 .done, .task 0 .done,
    .main .done, .main .done, .main .done, .main .done, .main (.events [.client 5 .input]),
    .main .done, .main .done, .main .done, .main .done, .start, .task 0 .done,
    .task 0 (.read .eof), .task 0 .done]

theorem answered_before_close_ended :
    ∃ s, sample.ReachableIf (Undisturbed (fun conn => conn.extractOneRequest = none) 5) s ∧
      s.ended 0 = true ∧ s.connections.lookup 5 = none ∧ s.received 0 = pageRequest ∧
      AnsweredBeforeClose Site.empty s 5 := by
  have hallowed : sample.Allowed (Undisturbed (fun conn => conn.extractOneRequest = none) 5)
      sample.init endedRun := by decide +kernel
  obtain ⟨s, hrun, hended, hgone, hreceived⟩ : ∃ s ∈ sample.run sample.init endedRun,
      s.ended 0 = true ∧ s.connections.lookup 5 = none ∧ s.received 0 = pageRequest := by
    decide +kernel
  have h := LTS.ReachableIf.run .init hallowed hrun
  exact ⟨s, h, hended, hgone, hreceived, answered_before_close h⟩

/-- The request is read, and the stream ends before `handleRead` leaves its loop. -/
def droppedRun : List Label :=
  dispatchRun ++ [.start, .task 0 .done, .task 0 (.read (.data pageRequest)), .task 0 .done,
    .task 0 (.read .eof), .task 0 .done, .task 0 .done, .task 0 .done, .task 0 .done]

/-- **A complete request is dropped.**  Its bytes are in the buffer when `read` returns 0, and the
connection is closed with nothing written. -/
theorem dropped_at_end : ∃ s, sample.run sample.init droppedRun = some s ∧
    sample.ReachableIf (Undisturbed (fun _ => True) 5) s ∧
    s.received 0 = pageRequest ∧ s.files 5 = none ∧ s.written 0 = [] ∧
    ¬ AnsweredBeforeClose Site.empty s 5 := by
  have hallowed : sample.Allowed (Undisturbed (fun _ => True) 5) sample.init droppedRun := by
    decide +kernel
  obtain ⟨s, hrun, hlatest, hgone, hm, hreceived, hfile, hwritten⟩ :
      ∃ s ∈ sample.run sample.init droppedRun, s.latest 5 = some 0 ∧
        s.connections.lookup 5 = none ∧ s.main = .events [] ∧ s.received 0 = pageRequest ∧
        s.files 5 = none ∧ s.written 0 = [] := by decide +kernel
  refine ⟨s, hrun, LTS.ReachableIf.run .init hallowed hrun, hreceived, hfile, hwritten,
    fun hanswered => ?_⟩
  have hprefix := hanswered 0 hlatest hgone (by simp [hm]) _ List.prefix_rfl (fun _ => rfl) 1
  have hrequests : Connection.requests 1 pageRequest = [pageRequest] := by decide +kernel
  have hdue : due Site.empty.reply [pageRequest] = [pageRequest] := by
    unfold due through
    split_ifs <;> rfl
  rw [Site.flatten_responses, hwritten, List.prefix_nil, hreceived, hrequests, hdue,
    Session.replies_singleton] at hprefix
  exact Site.empty.reply_bytes_ne_nil pageRequest hprefix

end Step

end HttpServer

end MiniServer
