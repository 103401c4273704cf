import MiniServer.Handler.Session
import MiniServer.Stream.Through

/-!
# What a client gets

From what is known at each place of the handlers (`Session.Fits`) follows what the client has got:

* `Runs.ordered` : the bytes written are the first bytes of the responses to the requests of the
  stream;
* `Finished.complete_of_closed` : when the connection is done with, every request that was due is
  answered;
* `Runs.last` : when the last response is written, the handlers are on the way to `closeConnection`.

All of it is independent of how the stream was cut into calls of `read`, for the requests of a
stream (`Connection.requests`) are those of every longer one (`Framer.Cuts.prefix_cutN`).
-/

namespace MiniServer

open Connection (framer)

/-- The first `n` requests that `extractOneRequest` cuts from a whole stream. -/
def Connection.requests (n : ℕ) (stream : Bytes) : List Bytes :=
  (extractN n (({ fd := 0, peerIp := [] } : Connection).appendReadData stream)).1

theorem Connection.requests_eq (n : ℕ) (stream : Bytes) :
    requests n stream = (framer.cutN n stream).1 :=
  congrArg Prod.fst (extractN_eq_cutN n _)

/-- A program counter between the last byte of a response and `closeConnection`. -/
def Pc.leadsToClose {C : Type} : Pc C → Bool
  | .consume _ _ => true
  | .gather _ => true
  | .clear _ => true
  | .closeBegin => true
  | _ => false

namespace Session

variable (reply : Bytes → Answer)

/-- The requests that are due to be answered: none after the first one whose response says that the
connection is closed. -/
def due (requests : List Bytes) : List Bytes :=
  through (fun raw => (reply raw).closeAfterWrite = true) requests

/-- The bytes written are the first bytes of the responses to the requests `done`, and no response
but the last one closes the connection. -/
structure Ordered (σ : Session) (done : List Bytes) : Prop where
  cuts : ∃ rest, framer.Cuts σ.received done rest
  written : σ.written <+: replies reply done
  keepsAlive : KeepsAlive reply done.dropLast

/-- All responses to the requests of a stream are written, and the last one closes. -/
def Complete (stream : Bytes) (m : ℕ) (σ : Session) : Prop :=
  σ.written = replies reply (due reply (Connection.requests m stream)) ∧
    ∃ raw ∈ due reply (Connection.requests m stream), (reply raw).closeAfterWrite = true

/-- The handlers have written the last response. -/
inductive Last {C : Type} (σ : Session) : Pc C → Prop
  | consume {c : C} {n : ℕ} : Last σ (.consume c n)
  | gather {c : C} : σ.conn.hasWriteData = false → Last σ (.gather c)
  | clear {c : C} : σ.conn.closeAfterWrite = true → Last σ (.clear c)
  | closeBegin : Last σ .closeBegin

variable {reply} {eof : Connection → Prop} {done : List Bytes} {raw : Bytes} {n : ℕ} {σ : Session}
variable {stream : Bytes} {m : ℕ}

theorem replies_mono {requests requests' : List Bytes} (h : requests <+: requests') :
    replies reply requests <+: replies reply requests' := by
  obtain ⟨more, rfl⟩ := h
  rw [replies_append]
  exact List.prefix_append _ _

theorem KeepsAlive.not_closes (h : KeepsAlive reply done) :
    ∀ raw ∈ done, ¬ (reply raw).closeAfterWrite = true := by
  intro raw hraw
  rw [h raw hraw]
  exact Bool.false_ne_true

theorem KeepsAlive.dropLast (h : KeepsAlive reply done) : KeepsAlive reply done.dropLast :=
  fun raw hraw => h raw (List.mem_of_mem_dropLast hraw)

/-! ### Responses in order -/

theorem Answered.ordered {pending : Bytes} (h : Answered reply done pending σ) :
    Ordered reply σ done where
  cuts := by
    obtain ⟨appended, hcuts, heq⟩ := h.cuts
    exact ⟨_, heq ▸ hcuts.append pending⟩
  written := h.written ▸ List.prefix_rfl
  keepsAlive := h.keepsAlive.dropLast

theorem Extracted.ordered (h : Extracted reply done raw σ) : Ordered reply σ (done ++ [raw]) where
  cuts := ⟨_, h.cuts⟩
  written := by
    rw [h.written, replies_append]
    exact List.prefix_append _ _
  keepsAlive := by
    rw [List.dropLast_concat]
    exact h.keepsAlive

theorem Answering.ordered (h : Answering reply done raw n σ) :
    Ordered reply σ (done ++ [raw]) where
  cuts := ⟨_, h.cuts⟩
  written := ⟨_, h.written⟩
  keepsAlive := by
    rw [List.dropLast_concat]
    exact h.keepsAlive

theorem Finished.ordered (h : Finished reply eof σ) : ∃ done, Ordered reply σ done := by
  obtain ⟨done, rest, hcuts, hwritten, ⟨halive, -⟩ | ⟨init, raw, rfl, halive, -⟩⟩ := h.complete
  · exact ⟨done, ⟨rest, hcuts⟩, hwritten ▸ List.prefix_rfl, halive.dropLast⟩
  · refine ⟨_, ⟨rest, hcuts⟩, hwritten ▸ List.prefix_rfl, ?_⟩
    rwa [List.dropLast_concat]

theorem Awaits.ordered {i : Interest} (h : Awaits reply σ i) :
    ∃ done, Ordered reply σ done := by
  cases i with
  | input =>
    obtain ⟨done, hdone, -⟩ := h
    exact ⟨done, hdone.ordered⟩
  | output =>
    obtain ⟨done, raw, hraw, -⟩ := h
    exact ⟨_, hraw.ordered⟩

theorem Runs.ordered {C : Type} {pc : Pc C} (hactive : pc.active = true)
    (h : Runs reply eof σ pc) : ∃ done, Ordered reply σ done := by
  cases pc with
  | readBegin => exact Awaits.ordered (i := .input) h
  | read c => obtain ⟨done, hdone⟩ := h; exact ⟨done, hdone.ordered⟩
  | append c data => obtain ⟨done, hdone⟩ := h; exact ⟨done, hdone.ordered⟩
  | readRefresh => obtain ⟨done, hdone⟩ := h; exact ⟨done, hdone.ordered⟩
  | writeBegin => exact Awaits.ordered (i := .output) h
  | gather c => obtain ⟨done, raw, hraw⟩ := h; exact ⟨_, hraw.ordered⟩
  | writev c iov => obtain ⟨done, raw, hraw, -⟩ := h; exact ⟨_, hraw.ordered⟩
  | consume c n => obtain ⟨done, raw, hraw⟩ := h; exact ⟨_, hraw.ordered⟩
  | clear c => obtain ⟨done, raw, hraw, -⟩ := h; exact ⟨_, hraw.ordered⟩
  | writeRefresh c pending => obtain ⟨done, hdone, -⟩ := h; exact ⟨done, hdone.ordered⟩
  | processBegin => obtain ⟨done, hdone⟩ := h; exact ⟨done, hdone.ordered⟩
  | extract c => obtain ⟨done, hdone⟩ := h; exact ⟨done, hdone.ordered⟩
  | respond c raw => obtain ⟨done, hraw⟩ := h; exact ⟨_, hraw.ordered⟩
  | finish c i record => exact Awaits.ordered h
  | rearm c i record => exact Awaits.ordered h
  | access c record => cases hactive
  | closeBegin => exact Finished.ordered h
  | markClosed c => exact Finished.ordered h
  | del => exact Finished.ordered h
  | close => exact Finished.ordered h

/-- What is cut from the bytes read so far is cut from the whole stream. -/
theorem Ordered.prefix_requests (h : Ordered reply σ done) (hstream : σ.received <+: stream)
    (hm : done.length ≤ m) : done <+: Connection.requests m stream := by
  obtain ⟨rest, hcuts⟩ := h.cuts
  obtain ⟨t, rfl⟩ := hstream
  rw [Connection.requests_eq]
  exact (hcuts.append t).prefix_cutN hm

theorem Ordered.prefix_due (h : Ordered reply σ done) (hstream : σ.received <+: stream)
    (hm : done.length ≤ m) : done <+: due reply (Connection.requests m stream) := by
  refine prefix_through (fun raw hraw => ?_) (h.prefix_requests hstream hm)
  exact h.keepsAlive.not_closes raw hraw

/-- **The bytes written are the first bytes of the responses to the stream.** -/
theorem Ordered.written_prefix (h : Ordered reply σ done) (hstream : σ.received <+: stream)
    (hm : done.length ≤ m) :
    σ.written <+: replies reply (due reply (Connection.requests m stream)) :=
  h.written.trans (replies_mono (h.prefix_due hstream hm))

/-- When no request is left in the buffer, all requests of the bytes read are answered. -/
theorem Answered.due_eq (h : Answered reply done [] σ)
    (hcut : framer.cut σ.conn.readBuf = none) (hm : done.length ≤ m) :
    due reply (Connection.requests m σ.received) = done := by
  rw [Connection.requests_eq, h.cuts_received.cutN_eq hcut hm, due]
  simpa [through] using through_append h.keepsAlive.not_closes []

/-! ### The last response -/

variable (reply) in
theorem due_prefix_due {m' : ℕ} (h : m ≤ m') (stream : Bytes) :
    due reply (Connection.requests m stream) <+: due reply (Connection.requests m' stream) := by
  rw [Connection.requests_eq, Connection.requests_eq]
  exact through_mono (Framer.cutN_mono h stream)

theorem due_eq {requests : List Bytes} (halive : KeepsAlive reply done)
    (hclose : (reply raw).closeAfterWrite = true) (h : done ++ [raw] <+: requests) :
    due reply requests = done ++ [raw] := by
  obtain ⟨more, rfl⟩ := h
  rw [List.append_assoc]
  exact through_marked halive.not_closes hclose more

/-- A connection that no end of the stream has ended has got all its responses. -/
theorem Finished.complete_of_closed (h : Finished reply (fun _ => False) σ)
    (hstream : σ.received <+: stream) : ∃ n, ∀ m, n ≤ m → Complete reply stream m σ := by
  obtain ⟨done, rest, hcuts, hwritten, hlast⟩ := h.complete
  obtain ⟨-, ⟨_, hfalse, -⟩, -⟩ | ⟨init, raw, rfl, halive, hclose, -⟩ := hlast
  · exact hfalse.elim
  · refine ⟨(init ++ [raw]).length, fun m hm => ?_⟩
    have hordered : Ordered reply σ (init ++ [raw]) :=
      ⟨⟨rest, hcuts⟩, hwritten ▸ List.prefix_rfl, by rwa [List.dropLast_concat]⟩
    have hdue := due_eq halive hclose (hordered.prefix_requests hstream hm)
    refine ⟨hdue ▸ hwritten, raw, ?_, hclose⟩
    rw [hdue]
    exact List.mem_append_right _ (List.mem_singleton.2 rfl)

/-- When the stream ended behind its last complete request, everything due is answered. -/
theorem Finished.answered (h : Finished reply eof σ)
    (heof : ∀ conn, eof conn → framer.cut conn.readBuf = none) (hstream : σ.received <+: stream)
    (hended : σ.ended = true → stream = σ.received) (m : ℕ) :
    replies reply (due reply (Connection.requests m stream)) <+: σ.written := by
  obtain ⟨done, rest, hcuts, hwritten, hlast⟩ := h.complete
  -- cutting more often is no loss
  have hmore := due_prefix_due reply (Nat.le_max_left m done.length) stream
  refine (replies_mono hmore).trans ?_
  rw [hwritten]
  refine replies_mono ?_
  rcases hlast with ⟨-, ⟨conn, hconn, rfl⟩, hend⟩ | ⟨init, raw, rfl, halive, hclose, -⟩
  · rw [hended hend, Connection.requests_eq,
      hcuts.cutN_eq (heof conn hconn) (Nat.le_max_right m done.length)]
    exact through_isPrefix done
  · have hordered : Ordered reply σ (init ++ [raw]) :=
      ⟨⟨rest, hcuts⟩, hwritten ▸ List.prefix_rfl, by rwa [List.dropLast_concat]⟩
    rw [due_eq halive hclose (hordered.prefix_requests hstream (Nat.le_max_right _ _))]

/-- The last response is the one to the last request that is cut. -/
theorem Ordered.of_complete (h : Ordered reply σ done) (hreply : ∀ raw, (reply raw).bytes ≠ [])
    (hstream : σ.received <+: stream) (hcomplete : Complete reply stream m σ) :
    ∃ init raw, done = init ++ [raw] ∧ (reply raw).closeAfterWrite = true ∧
      σ.written = replies reply done := by
  obtain ⟨hwritten, hmem⟩ := hcomplete
  obtain ⟨init, raw, hinit, hclose, heq⟩ := exists_through_eq hmem
  have halive : KeepsAlive reply init := fun raw hraw => by simpa using hinit raw hraw
  have hdue : due reply (Connection.requests (max m done.length) stream) = init ++ [raw] := by
    refine due_eq halive hclose ?_
    rw [← heq]
    refine (through_isPrefix _).trans ?_
    rw [Connection.requests_eq, Connection.requests_eq]
    exact Framer.cutN_mono (Nat.le_max_left _ _) stream
  have hprefix := h.prefix_due hstream (Nat.le_max_right m done.length)
  rw [hdue, List.prefix_concat_iff] at hprefix
  have hwritten : σ.written = replies reply (init ++ [raw]) := heq ▸ hwritten
  rcases hprefix with rfl | hshort
  · exact ⟨init, raw, rfl, hclose, hwritten⟩
  · -- otherwise more would be written than the requests cut so far are answered with
    have hle := (h.written.trans (replies_mono hshort)).length_le
    rw [hwritten, replies_append, replies_singleton, List.length_append] at hle
    exact absurd (List.length_eq_zero_iff.1 (by omega)) (hreply raw)

theorem Answered.not_complete {pending : Bytes} (h : Answered reply done pending σ)
    (hreply : ∀ raw, (reply raw).bytes ≠ []) (hstream : σ.received <+: stream) :
    ¬ Complete reply stream m σ := by
  intro hcomplete
  obtain ⟨init, raw, rfl, hclose, -⟩ := h.ordered.of_complete hreply hstream hcomplete
  exact h.keepsAlive.not_closes raw (List.mem_append_right _ (List.mem_singleton.2 rfl)) hclose

theorem Extracted.not_complete (h : Extracted reply done raw σ)
    (hreply : ∀ raw, (reply raw).bytes ≠ []) (hstream : σ.received <+: stream) :
    ¬ Complete reply stream m σ := by
  intro hcomplete
  obtain ⟨-, -, -, -, hwritten⟩ := h.ordered.of_complete hreply hstream hcomplete
  rw [h.written, replies_append, List.self_eq_append_right, replies_singleton] at hwritten
  exact hreply raw hwritten

theorem Answering.of_complete (h : Answering reply done raw n σ)
    (hreply : ∀ raw, (reply raw).bytes ≠ []) (hstream : σ.received <+: stream)
    (hcomplete : Complete reply stream m σ) :
    σ.conn.unsent.drop n = [] ∧ σ.conn.closeAfterWrite = true := by
  obtain ⟨init, raw', heq, hclose, hwritten⟩ := h.ordered.of_complete hreply hstream hcomplete
  obtain ⟨rfl, hraw⟩ := List.append_inj' heq rfl
  cases hraw
  have hall := h.written
  rw [← hwritten, List.append_right_eq_self] at hall
  exact ⟨hall, h.closes.trans hclose⟩

theorem Awaits.not_complete {interest : Interest} (h : Awaits reply σ interest)
    (hreply : ∀ raw, (reply raw).bytes ≠ []) (hstream : σ.received <+: stream) :
    ¬ Complete reply stream m σ := by
  intro hcomplete
  cases interest with
  | input =>
    obtain ⟨done, hdone, -⟩ := h
    exact hdone.not_complete hreply hstream hcomplete
  | output =>
    obtain ⟨done, raw, hraw, hunsent⟩ := h
    exact hunsent (hraw.of_complete hreply hstream hcomplete).1

/-- **When the last response is written, the handlers are about to close the connection.** -/
theorem Runs.last {C : Type} {pc : Pc C} (h : Runs reply eof σ pc) (hactive : pc.active = true)
    (hpast : pc.pastErase = false) (hreply : ∀ raw, (reply raw).bytes ≠ [])
    (hstream : σ.received <+: stream) (hcomplete : Complete reply stream m σ) : Last σ pc := by
  have hanswered : ∀ {done pending}, Answered reply done pending σ → Last σ pc :=
    fun hdone => absurd hcomplete (hdone.not_complete hreply hstream)
  have hawaits : ∀ {i}, Awaits reply σ i → Last σ pc :=
    fun hwait => absurd hcomplete (hwait.not_complete hreply hstream)
  cases pc with
  | readBegin => exact hawaits (i := .input) h
  | read c => obtain ⟨done, hdone⟩ := h; exact hanswered hdone
  | append c data => obtain ⟨done, hdone⟩ := h; exact hanswered hdone
  | readRefresh => obtain ⟨done, hdone⟩ := h; exact hanswered hdone
  | writeBegin => exact hawaits (i := .output) h
  | gather c =>
    obtain ⟨done, raw, hraw⟩ := h
    have hunsent := (hraw.of_complete hreply hstream hcomplete).1
    exact .gather (hraw.inBounds.hasWriteData_eq_false.2 hunsent)
  | writev c iov =>
    obtain ⟨done, raw, hraw, hunsent, -⟩ := h
    exact absurd (hraw.of_complete hreply hstream hcomplete).1 hunsent
  | consume c n => exact .consume
  | clear c =>
    obtain ⟨done, raw, hraw, -⟩ := h
    exact .clear (hraw.of_complete hreply hstream hcomplete).2
  | writeRefresh c pending => obtain ⟨done, hdone, -⟩ := h; exact hanswered hdone
  | processBegin => obtain ⟨done, hdone⟩ := h; exact hanswered hdone
  | extract c => obtain ⟨done, hdone⟩ := h; exact hanswered hdone
  | respond c raw =>
    obtain ⟨done, hraw⟩ := h
    exact absurd hcomplete (hraw.not_complete hreply hstream)
  | finish c i record => exact hawaits h
  | rearm c i record => exact hawaits h
  | access c record => cases hactive
  | closeBegin => exact .closeBegin
  | markClosed c => cases hpast
  | del => cases hpast
  | close => cases hpast

end Session

end MiniServer
