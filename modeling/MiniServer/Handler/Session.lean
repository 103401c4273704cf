import MiniServer.Connection.Framing
import MiniServer.Connection.Sending
import MiniServer.Handler.Code

/-!
# The session of one client

A `Session` is what one client and the server have exchanged, with the connection object between
them.  The handlers work on it one after the other; `Place` says which of them is at work, and
`Fits` what is then known of the session: which requests are answered, which one is being answered,
and how much of its response the socket has taken.

`Fits` is kept by every section and system call of the handlers (`Answered.read` to
`Answering.clear`).
-/

namespace MiniServer

/-- What was read from a client and written to it, and the connection object. -/
structure Session where
  conn : Connection
  received : Bytes
  written : Bytes
  ended : Bool

/-- Where the session is. -/
inductive Place (C : Type) where
  /-- `epoll` or the main thread has the descriptor. -/
  | waiting (interest : Interest)
  /-- A task has it. -/
  | running (pc : Pc C)
  /-- The connection is closed. -/
  | gone

namespace Session

open Connection (framer)

variable (reply : Bytes → Answer)

/-- The responses to a list of requests. -/
def replies (requests : List Bytes) : Bytes :=
  (requests.map fun raw => (reply raw).bytes).flatten

/-- No response says that the connection is closed after it. -/
def KeepsAlive (requests : List Bytes) : Prop :=
  ∀ raw ∈ requests, (reply raw).closeAfterWrite = false

/-- The requests `done` are answered, no other is cut, and the last `pending` bytes read are not
appended yet. -/
structure Answered (done : List Bytes) (pending : Bytes) (σ : Session) : Prop where
  cuts : ∃ appended, framer.Cuts appended done σ.conn.readBuf ∧ appended ++ pending = σ.received
  written : σ.written = replies reply done
  keepsAlive : KeepsAlive reply done
  ended : σ.ended = false

/-- The requests `done` are answered, and `raw` is cut. -/
structure Extracted (done : List Bytes) (raw : Bytes) (σ : Session) : Prop where
  cuts : framer.Cuts σ.received (done ++ [raw]) σ.conn.readBuf
  written : σ.written = replies reply done
  keepsAlive : KeepsAlive reply done
  ended : σ.ended = false

/-- The requests `done` are answered, the response to `raw` is being written, and the socket has
taken `n` bytes of it that the connection object does not know of yet. -/
structure Answering (done : List Bytes) (raw : Bytes) (n : ℕ) (σ : Session) : Prop where
  cuts : framer.Cuts σ.received (done ++ [raw]) σ.conn.readBuf
  inBounds : σ.conn.InBounds
  written : σ.written ++ σ.conn.unsent.drop n = replies reply (done ++ [raw])
  le : n ≤ σ.conn.unsent.length
  closes : σ.conn.closeAfterWrite = (reply raw).closeAfterWrite
  keepsAlive : KeepsAlive reply done
  ended : σ.ended = false

variable (eof : Connection → Prop)

/-- The connection is done with: the last response says that it is closed, or `read` has returned 0
when the connection object was as `eof` says. -/
structure Finished (σ : Session) : Prop where
  complete : ∃ done rest, framer.Cuts σ.received done rest ∧ σ.written = replies reply done ∧
    (KeepsAlive reply done ∧ (∃ conn, eof conn ∧ conn.readBuf = rest) ∧ σ.ended = true ∨
      ∃ init raw, done = init ++ [raw] ∧ KeepsAlive reply init ∧
        (reply raw).closeAfterWrite = true ∧ σ.ended = false)

/-- What is known while the descriptor waits for an event. -/
def Awaits (σ : Session) : Interest → Prop
  | .input => ∃ done, Answered reply done [] σ ∧ framer.cut σ.conn.readBuf = none
  | .output => ∃ done raw, Answering reply done raw 0 σ ∧ σ.conn.unsent ≠ []

/-- What is known at a place of the handlers. -/
def Runs {C : Type} (σ : Session) : Pc C → Prop
  | .readBegin => Awaits reply σ .input
  | .read _ => ∃ done, Answered reply done [] σ
  | .append _ data => ∃ done, Answered reply done data σ
  | .readRefresh => ∃ done, Answered reply done [] σ
  | .writeBegin => Awaits reply σ .output
  | .gather _ => ∃ done raw, Answering reply done raw 0 σ
  | .writev _ iov =>
    ∃ done raw, Answering reply done raw 0 σ ∧ σ.conn.unsent ≠ [] ∧ iov = σ.conn.iovecs
  | .consume _ n => ∃ done raw, Answering reply done raw n σ
  | .clear _ => ∃ done raw, Answering reply done raw 0 σ ∧ σ.conn.unsent = []
  | .writeRefresh _ hasPendingRead =>
    ∃ done, Answered reply done [] σ ∧ hasPendingRead = σ.conn.hasPendingRead
  | .processBegin => ∃ done, Answered reply done [] σ
  | .extract _ => ∃ done, Answered reply done [] σ
  | .respond _ raw => ∃ done, Extracted reply done raw σ
  | .finish _ interest _ => Awaits reply σ interest
  | .rearm _ interest _ => Awaits reply σ interest
  | .access _ _ => True
  | .closeBegin => Finished reply eof σ
  | .markClosed _ => Finished reply eof σ
  | .del => Finished reply eof σ
  | .close => Finished reply eof σ

/-- What is known at a place. -/
def Fits {C : Type} (σ : Session) : Place C → Prop
  | .waiting interest => Awaits reply σ interest
  | .running pc => Runs reply eof σ pc
  | .gone => Finished reply eof σ

variable {reply} {eof} {done : List Bytes} {raw : Bytes} {n : ℕ} {σ : Session}

theorem replies_append (requests requests' : List Bytes) :
    replies reply (requests ++ requests') = replies reply requests ++ replies reply requests' := by
  rw [replies, List.map_append, List.flatten_append]
  rfl

theorem replies_singleton (raw : Bytes) : replies reply [raw] = (reply raw).bytes := by
  simp [replies]

theorem KeepsAlive.snoc (h : KeepsAlive reply done) (hraw : (reply raw).closeAfterWrite = false) :
    KeepsAlive reply (done ++ [raw]) := by
  intro raw' hmem
  rcases List.mem_append.1 hmem with hmem | hmem
  · exact h raw' hmem
  · rwa [List.mem_singleton.1 hmem]

/-! ### Flags do not matter -/

/-- The session with other flags of the connection object. -/
def withFlags (σ : Session) (writeReady processing closed : Bool) : Session :=
  { σ with conn := { σ.conn with writeReady, processing, closed } }

section Flags

variable {writeReady processing closed : Bool}

theorem Answered.withFlags {pending : Bytes} (h : Answered reply done pending σ) :
    Answered reply done pending (σ.withFlags writeReady processing closed) :=
  ⟨h.cuts, h.written, h.keepsAlive, h.ended⟩

theorem Answering.withFlags (h : Answering reply done raw n σ) :
    Answering reply done raw n (σ.withFlags writeReady processing closed) :=
  ⟨h.cuts, ⟨h.inBounds.write, h.inBounds.file⟩, h.written, h.le, h.closes, h.keepsAlive, h.ended⟩

theorem Awaits.withFlags {interest : Interest} (h : Awaits reply σ interest) :
    Awaits reply (σ.withFlags writeReady processing closed) interest := by
  cases interest with
  | input =>
    obtain ⟨done, hdone, hcut⟩ := h
    exact ⟨done, hdone.withFlags, hcut⟩
  | output =>
    obtain ⟨done, raw, hraw, hunsent⟩ := h
    exact ⟨done, raw, hraw.withFlags, hunsent⟩

end Flags

/-- What is finished does not depend on the connection object any more. -/
theorem Finished.withConn (h : Finished reply eof σ) (conn : Connection) :
    Finished reply eof { σ with conn } :=
  ⟨h.complete⟩

/-! ### Reading -/

theorem Answered.init {conn : Connection} (h : conn.readBuf = []) :
    Answered reply [] [] ⟨conn, [], [], false⟩ where
  cuts := ⟨[], by rw [h]; exact .nil [], rfl⟩
  written := rfl
  keepsAlive := fun raw hraw => absurd hraw List.not_mem_nil
  ended := rfl

theorem Answered.read (h : Answered reply done [] σ) (bytes : Bytes) :
    Answered reply done bytes { σ with received := σ.received ++ bytes } where
  cuts := by
    obtain ⟨appended, hcuts, heq⟩ := h.cuts
    exact ⟨appended, hcuts, by rw [← heq, List.append_nil]⟩
  written := h.written
  keepsAlive := h.keepsAlive
  ended := h.ended

theorem Answered.append {data : Bytes} (h : Answered reply done data σ) :
    Answered reply done [] { σ with conn := σ.conn.appendReadData data } where
  cuts := by
    obtain ⟨appended, hcuts, heq⟩ := h.cuts
    exact ⟨appended ++ data, hcuts.append data, by rw [← heq, List.append_nil]⟩
  written := h.written
  keepsAlive := h.keepsAlive
  ended := h.ended

theorem Answered.cuts_received (h : Answered reply done [] σ) :
    framer.Cuts σ.received done σ.conn.readBuf := by
  obtain ⟨appended, hcuts, heq⟩ := h.cuts
  rwa [← heq, List.append_nil]

theorem Answered.extract (h : Answered reply done [] σ) {conn : Connection}
    (hex : σ.conn.extractOneRequest = some (raw, conn)) :
    Extracted reply done raw { σ with conn } := by
  obtain ⟨rest, hcut, rfl⟩ := Connection.extractOneRequest_eq_some_iff.1 hex
  exact ⟨h.cuts_received.snoc hcut, h.written, h.keepsAlive, h.ended⟩

/-- The stream ends. -/
theorem Answered.finish (h : Answered reply done [] σ) (heof : eof σ.conn) :
    Finished reply eof { σ with ended := true } :=
  ⟨done, σ.conn.readBuf, h.cuts_received, h.written,
    .inl ⟨h.keepsAlive, ⟨σ.conn, heof, rfl⟩, rfl⟩⟩

/-! ### Writing -/

theorem unsent_queue (a : Answer) (conn : Connection) :
    (a.queue conn).InBounds ∧ (a.queue conn).unsent = a.bytes := by
  have hbounds : (a.queue conn).InBounds := by
    unfold Answer.queue
    split <;> exact ⟨Nat.zero_le _, Nat.zero_le _⟩
  refine ⟨hbounds, hbounds.unsent_eq.trans ?_⟩
  unfold Answer.queue Answer.bytes
  cases a.payload with
  | text data => exact List.append_nil data
  | mapped header file => rfl

theorem Extracted.queue (h : Extracted reply done raw σ) :
    Answering reply done raw 0 { σ with conn := (reply raw).queue σ.conn } where
  cuts := by
    show framer.Cuts σ.received (done ++ [raw]) ((reply raw).queue σ.conn).readBuf
    rw [Answer.queue_readBuf]
    exact h.cuts
  inBounds := (unsent_queue (reply raw) σ.conn).1
  written := by
    show σ.written ++ ((reply raw).queue σ.conn).unsent.drop 0 = _
    rw [(unsent_queue (reply raw) σ.conn).2, h.written, replies_append, replies_singleton]
    rfl
  le := Nat.zero_le _
  closes := Answer.queue_closeAfterWrite _ _
  keepsAlive := h.keepsAlive
  ended := h.ended

/-- The socket takes `n` bytes. -/
theorem Answering.wrote (h : Answering reply done raw 0 σ) (hn : n ≤ σ.conn.unsent.length) :
    Answering reply done raw n
      { σ with written := σ.written ++ σ.conn.unsent.take n } where
  cuts := h.cuts
  inBounds := h.inBounds
  written := by
    show σ.written ++ σ.conn.unsent.take n ++ σ.conn.unsent.drop n = _
    rw [List.append_assoc, List.take_append_drop]
    exact h.written
  le := hn
  closes := h.closes
  keepsAlive := h.keepsAlive
  ended := h.ended

theorem Answering.consume (h : Answering reply done raw n σ) :
    Answering reply done raw 0 { σ with conn := σ.conn.consumeWriteData n } := by
  obtain ⟨hbounds, hunsent⟩ := h.inBounds.unsent_consumeWriteData h.le
  refine ⟨?_, hbounds, ?_, Nat.zero_le _, ?_, h.keepsAlive, h.ended⟩
  · show framer.Cuts σ.received (done ++ [raw]) (σ.conn.consumeWriteData n).readBuf
    rw [Connection.consumeWriteData_readBuf]
    exact h.cuts
  · show σ.written ++ (σ.conn.consumeWriteData n).unsent.drop 0 = _
    rw [hunsent]
    exact h.written
  · show (σ.conn.consumeWriteData n).closeAfterWrite = _
    rw [Connection.consumeWriteData_closeAfterWrite]
    exact h.closes

theorem Answering.written_eq (h : Answering reply done raw 0 σ) (hunsent : σ.conn.unsent = []) :
    σ.written = replies reply (done ++ [raw]) := by
  have hwritten := h.written
  rwa [hunsent, List.drop_nil, List.append_nil] at hwritten

/-- The response is written, and the connection goes on. -/
theorem Answering.clear (h : Answering reply done raw 0 σ) (hunsent : σ.conn.unsent = [])
    (hclose : σ.conn.closeAfterWrite = false) {conn : Connection}
    (hbuf : conn.readBuf = σ.conn.readBuf) :
    Answered reply (done ++ [raw]) [] { σ with conn } where
  cuts := ⟨σ.received, by rw [hbuf]; exact h.cuts, List.append_nil _⟩
  written := h.written_eq hunsent
  keepsAlive := h.keepsAlive.snoc (h.closes ▸ hclose)
  ended := h.ended

/-- The response is written, and it was the last one. -/
theorem Answering.finish (h : Answering reply done raw 0 σ) (hunsent : σ.conn.unsent = [])
    (hclose : σ.conn.closeAfterWrite = true) (conn : Connection) :
    Finished reply eof { σ with conn } :=
  ⟨done ++ [raw], σ.conn.readBuf, h.cuts, h.written_eq hunsent,
    .inr ⟨done, raw, rfl, h.keepsAlive, h.closes ▸ hclose, h.ended⟩⟩

/-! ### The steps of the handlers

From what is known at a program counter follows what is known at the next one, for each of the
branches of `Pc.code` that leave the connection open. -/

section Handlers

variable {C : Type} {c : C}

theorem Runs.readFound (h : Runs reply eof σ (.readBegin : Pc C)) :
    Runs reply eof σ (.read c) := by
  obtain ⟨done, hdone, -⟩ := h
  exact ⟨done, hdone⟩

theorem Runs.readData (h : Runs reply eof σ (.read c)) (bytes : Bytes) :
    Runs reply eof { σ with received := σ.received ++ bytes } (.append c bytes) := by
  obtain ⟨done, hdone⟩ := h
  exact ⟨done, hdone.read bytes⟩

theorem Runs.readEnd (h : Runs reply eof σ (.read c)) (heof : eof σ.conn) :
    Runs reply eof { σ with ended := true } (.closeBegin : Pc C) := by
  obtain ⟨done, hdone⟩ := h
  exact hdone.finish heof

theorem Runs.append {data : Bytes} (h : Runs reply eof σ (.append c data)) :
    Runs reply eof { σ with conn := σ.conn.appendReadData data } (.read c) := by
  obtain ⟨done, hdone⟩ := h
  exact ⟨done, hdone.append⟩

theorem Runs.writeFound (h : Runs reply eof σ (.writeBegin : Pc C)) :
    Runs reply eof σ (.gather c) := by
  obtain ⟨done, raw, hraw, -⟩ := h
  exact ⟨done, raw, hraw⟩

theorem Runs.gather (h : Runs reply eof σ (.gather c)) (hmore : σ.conn.hasWriteData = true) :
    Runs reply eof σ (.writev c σ.conn.iovecs) := by
  obtain ⟨done, raw, hraw⟩ := h
  refine ⟨done, raw, hraw, fun hunsent => ?_, rfl⟩
  have hempty := hraw.inBounds.hasWriteData_eq_false.2 hunsent
  rw [hempty] at hmore
  cases hmore

theorem Runs.gatherEnd (h : Runs reply eof σ (.gather c)) (hempty : σ.conn.hasWriteData = false) :
    Runs reply eof σ (.clear c) := by
  obtain ⟨done, raw, hraw⟩ := h
  exact ⟨done, raw, hraw, hraw.inBounds.hasWriteData_eq_false.1 hempty⟩

theorem Runs.wrote {iov : List Bytes} (h : Runs reply eof σ (.writev c iov))
    (hn : n ≤ iov.flatten.length) :
    Runs reply eof { σ with written := σ.written ++ iov.flatten.take n } (.consume c n) := by
  obtain ⟨done, raw, hraw, -, rfl⟩ := h
  exact ⟨done, raw, hraw.wrote hn⟩

theorem Runs.writeAgain {iov : List Bytes} {record : Option Answer}
    (h : Runs reply eof σ (.writev c iov)) : Runs reply eof σ (.finish c .output record) := by
  obtain ⟨done, raw, hraw, hunsent, -⟩ := h
  exact ⟨done, raw, hraw, hunsent⟩

theorem Runs.consume (h : Runs reply eof σ (.consume c n)) :
    Runs reply eof { σ with conn := σ.conn.consumeWriteData n } (.gather c) := by
  obtain ⟨done, raw, hraw⟩ := h
  exact ⟨done, raw, hraw.consume⟩

theorem Runs.clearClose (h : Runs reply eof σ (.clear c)) (hclose : σ.conn.closeAfterWrite = true)
    (conn : Connection) : Runs reply eof { σ with conn } (.closeBegin : Pc C) := by
  obtain ⟨done, raw, hraw, hunsent⟩ := h
  exact hraw.finish hunsent hclose conn

theorem Runs.clear (h : Runs reply eof σ (.clear c)) (hclose : σ.conn.closeAfterWrite = false) :
    Runs reply eof { σ with conn := σ.conn.clearWriteData.setWriteReady false }
      (.writeRefresh c σ.conn.hasPendingRead) := by
  obtain ⟨done, raw, hraw, hunsent⟩ := h
  exact ⟨done ++ [raw], hraw.clear hunsent hclose rfl, rfl⟩

theorem Runs.writeRefreshMore {hasPendingRead : Bool}
    (h : Runs reply eof σ (.writeRefresh c hasPendingRead)) :
    Runs reply eof σ (.processBegin : Pc C) := by
  obtain ⟨done, hdone, -⟩ := h
  exact ⟨done, hdone⟩

theorem Runs.writeRefresh {record : Option Answer} (h : Runs reply eof σ (.writeRefresh c false)) :
    Runs reply eof σ (.finish c .input record) := by
  obtain ⟨done, hdone, hpending⟩ := h
  -- nothing is left in the buffer, so there is no request in it
  have hempty : σ.conn.readBuf = [] := by
    simpa [Connection.hasPendingRead] using hpending.symm
  refine ⟨done, hdone, ?_⟩
  rw [hempty]
  exact Connection.framer_cut_nil

theorem Runs.extractNone (h : Runs reply eof σ (.extract c))
    (hnone : σ.conn.extractOneRequest = none) : Awaits reply σ .input := by
  obtain ⟨done, hdone⟩ := h
  exact ⟨done, hdone, Connection.extractOneRequest_eq_none_iff.1 hnone⟩

theorem Runs.extract (h : Runs reply eof σ (.extract c)) {conn : Connection}
    (hex : σ.conn.extractOneRequest = some (raw, conn)) :
    Runs reply eof { σ with conn } (.respond c raw) := by
  obtain ⟨done, hdone⟩ := h
  exact ⟨done, hdone.extract hex⟩

theorem Runs.respond {record : Option Answer} (h : Runs reply eof σ (.respond c raw))
    (hreply : (reply raw).bytes ≠ []) :
    Runs reply eof { σ with conn := (reply raw).queue σ.conn } (.finish c .output record) := by
  obtain ⟨done, hraw⟩ := h
  refine ⟨done, raw, hraw.queue, ?_⟩
  show ((reply raw).queue σ.conn).unsent ≠ []
  rw [(unsent_queue (reply raw) σ.conn).2]
  exact hreply

end Handlers

end Session

end MiniServer
