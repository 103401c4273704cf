import MiniServer.Connection.Basic
import MiniServer.Http.Answer

/-!
# The code of the handlers

`handleRead`, `handleWrite`, `processConnectionTask` and `closeConnection` are straight-line code
between locked sections and system calls, so a thread that runs them is a program counter `Pc` with
the local variables that are still needed.  `code` translates the source once: for every program
counter it gives the next locked section or system call, and what follows for each result.

The systems that run this code (one connection, the whole server) give their own meaning to an
`Action`.

A locked section is one action.  Where the source makes a system call inside it (`epoller_.mod` in
`processConnectionTask`), the call is part of the action: the lock is held from the check to the
call, so nothing that takes the lock can come between them.

`SIGPIPE` is taken to be ignored: a `writev` to a client that is gone is the error that the source
handles, and does not end the process.
-/

namespace MiniServer

/-- What a connection is armed for: `EPOLLIN` or `EPOLLOUT`, with `EPOLLET | EPOLLONESHOT`. -/
inductive Interest where
  | input
  | output
  deriving DecidableEq, Repr

/-- Results of `read` into a buffer: some bytes, 0, `EAGAIN`, another error. -/
inductive ReadResult where
  | data (bytes : Bytes)
  | eof
  | again
  | error
  deriving DecidableEq, Repr

/-- Results of `writev`: a positive number of bytes, `EAGAIN`, 0 or another error. -/
inductive WriteResult where
  | wrote (n : ℕ)
  | again
  | error
  deriving DecidableEq, Repr

/-- Program counters of the handlers; `c` is the local variable `conn`. -/
inductive Pc (C : Type) where
  /-- `handleRead`, before `getConnection`. -/
  | readBegin
  /-- Before `read`. -/
  | read (c : C)
  /-- Before `appendReadData`. -/
  | append (c : C) (data : Bytes)
  /-- Before the timer is refreshed. -/
  | readRefresh
  /-- `handleWrite`, before `getConnection`. -/
  | writeBegin
  /-- Before the array for `writev` is filled. -/
  | gather (c : C)
  /-- Before `writev`. -/
  | writev (c : C) (iov : List Bytes)
  /-- Before `consumeWriteData`. -/
  | consume (c : C) (n : ℕ)
  /-- After the loop, before `clearWriteData`. -/
  | clear (c : C)
  /-- Before the timer is refreshed. -/
  | writeRefresh (c : C) (hasPendingRead : Bool)
  /-- `processConnectionTask`, before `getConnection`. -/
  | processBegin
  /-- Before `extractOneRequest`. -/
  | extract (c : C)
  /-- Before the response is queued. -/
  | respond (c : C) (rawRequest : Bytes)
  /-- Before `finishProcessing`; `record` is what is logged at the end. -/
  | finish (c : C) (interest : Interest) (record : Option Answer)
  /-- Before `epoller_.mod`. -/
  | rearm (c : C) (interest : Interest) (record : Option Answer)
  /-- Before `logger_.access`. -/
  | access (c : C) (record : Answer)
  /-- `closeConnection`, before the entry is erased. -/
  | closeBegin
  /-- Before `markClosed`. -/
  | markClosed (c : C)
  /-- Before `epoller_.del`. -/
  | del
  /-- Before `close`. -/
  | close
  deriving DecidableEq, Repr

/-- What a section under `conn->mutex()` does: the object after it, the `epoller_.mod` inside it,
and the program counter after it, `none` for `return`. -/
structure Section (C : Type) where
  conn : Connection
  arm : Option Interest := none
  next : Option (Pc C)

/-- A locked section or a system call, with what follows for each result. -/
inductive Action (C : Type) where
  | getConnection (next : Option C → Option (Pc C))
  | read (next : ReadResult → Pc C)
  | writev (iov : List Bytes) (next : WriteResult → Pc C)
  | locked (c : C) (body : Connection → Section C)
  /-- `timers_.addOrUpdate` with the idle timeout from now. -/
  | refresh (next : Pc C)
  | mod (interest : Interest) (next : Option (Pc C))
  | log (c : C) (record : Answer)
  /-- The entry is looked up and erased with its timer. -/
  | erase (next : Option C → Option (Pc C))
  | del (next : Pc C)
  | close

namespace Pc

variable {C : Type} (reply : Bytes → Answer)

/-- The section at the head of the loop of `handleWrite`. -/
def gatherBody (c : C) (conn : Connection) : Section C :=
  if conn.closed || !conn.hasWriteData then { conn, next := some (.clear c) }
  else { conn, next := some (.writev c conn.iovecs) }

/-- The section behind the loop of `handleWrite`. -/
def clearBody (c : C) (conn : Connection) : Section C :=
  let conn := conn.clearWriteData.setWriteReady false
  if conn.closeAfterWrite then { conn, next := some .closeBegin }
  else { conn, next := some (.writeRefresh c conn.hasPendingRead) }

/-- The first section of `processConnectionTask`. -/
def extractBody (c : C) (conn : Connection) : Section C :=
  if conn.closed then { conn := conn.setProcessing false, arm := some .input, next := none }
  else match conn.extractOneRequest with
    | none => { conn := conn.setProcessing false, arm := some .input, next := none }
    | some (rawRequest, conn) => { conn, next := some (.respond c rawRequest) }

/-- The sections of `processConnectionTask` that queue a response. -/
def respondBody (c : C) (rawRequest : Bytes) (conn : Connection) : Section C :=
  if conn.closed then { conn, next := none }
  else
    let answer := reply rawRequest
    { conn := answer.queue conn, next := some (.finish c .output (some answer)) }

/-- The source, action by action. -/
def code : Pc C → Action C
  | .readBegin => .getConnection fun conn => conn.map .read
  | .read c => .read fun
    | .data bytes => .append c bytes
    | .eof => .closeBegin
    | .again => .readRefresh
    | .error => .closeBegin
  | .append c bytes => .locked c fun conn =>
    { conn := if conn.closed then conn else conn.appendReadData bytes, next := some (.read c) }
  | .readRefresh => .refresh .processBegin
  | .writeBegin => .getConnection fun conn => conn.map .gather
  | .gather c => .locked c (gatherBody c)
  | .writev c iov => .writev iov fun
    | .wrote n => .consume c n
    | .again => .finish c .output none
    | .error => .closeBegin
  | .consume c n => .locked c fun conn =>
    { conn := conn.consumeWriteData n, next := some (.gather c) }
  | .clear c => .locked c (clearBody c)
  | .writeRefresh c hasPendingRead =>
    .refresh (if hasPendingRead then .processBegin else .finish c .input none)
  | .processBegin => .getConnection fun conn => conn.map .extract
  | .extract c => .locked c (extractBody c)
  | .respond c rawRequest => .locked c (respondBody reply c rawRequest)
  | .finish c interest record => .locked c fun conn =>
    { conn := if conn.closed then conn else conn.setProcessing false
      next := some (.rearm c interest record) }
  | .rearm c interest record => .mod interest (record.map (.access c))
  | .access c record => .log c record
  | .closeBegin => .erase fun conn => conn.map .markClosed
  | .markClosed c => .locked c fun conn => { conn := conn.markClosed, next := some .del }
  | .del => .del .close
  | .close => .close

/-- A task that has not yet passed its final re-arm or close. -/
def active : Pc C → Bool
  | .access _ _ => false
  | _ => true

/-- The connection object that a program counter holds. -/
def conn? : Pc C → Option C
  | .read c => some c
  | .append c _ => some c
  | .gather c => some c
  | .writev c _ => some c
  | .consume c _ => some c
  | .clear c => some c
  | .writeRefresh c _ => some c
  | .extract c => some c
  | .respond c _ => some c
  | .finish c _ _ => some c
  | .rearm c _ _ => some c
  | .access c _ => some c
  | .markClosed c => some c
  | _ => none

/-- A program counter from which a closed connection is left without another system call on its
descriptor. -/
def detached : Pc C → Bool
  | .respond _ _ => true
  | .access _ _ => true
  | _ => false

/-- A program counter of `closeConnection` behind the section that erases the entry. -/
def pastErase : Pc C → Bool
  | .markClosed _ => true
  | .del => true
  | .close => true
  | _ => false

/-- A bound on the steps to the end of the handlers when no more bytes move. -/
def rank : Pc C → ℕ
  | .access _ _ => 0
  | .close => 1
  | .del => 2
  | .markClosed _ => 3
  | .closeBegin => 4
  | .rearm _ _ _ => 5
  | .finish _ _ _ => 6
  | .respond _ _ => 7
  | .extract _ => 8
  | .processBegin => 9
  | .writeRefresh _ _ => 10
  | .clear _ => 11
  | .writev _ _ => 12
  | .gather _ => 13
  | .consume _ _ => 14
  | .writeBegin => 14
  | .readRefresh => 10
  | .read _ => 11
  | .append _ _ => 12
  | .readBegin => 12

/-! ### Locked sections -/

variable {reply}

/-- `processConnectionTask` gives its token back, or has cut a request. -/
theorem extractBody_cases (c : C) (conn : Connection) :
    (conn.closed = true ∨ conn.extractOneRequest = none) ∧
        extractBody c conn =
          { conn := conn.setProcessing false, arm := some .input, next := none } ∨
      ∃ rawRequest conn', conn.closed = false ∧
        conn.extractOneRequest = some (rawRequest, conn') ∧
        extractBody c conn = { conn := conn', next := some (.respond c rawRequest) } := by
  unfold extractBody
  split_ifs with hclosed
  · exact .inl ⟨.inl hclosed, rfl⟩
  · split
    · exact .inl ⟨.inr ‹_›, rfl⟩
    · exact .inr ⟨_, _, by simpa using hclosed, ‹_›, rfl⟩

/-- Only `closeConnection` closes a connection. -/
theorem closed_eq_of_locked {pc : Pc C} {c : C} {body : Connection → Section C}
    (h : pc.code reply = .locked c body) (hpc : pc.pastErase = false) (conn : Connection) :
    (body conn).conn.closed = conn.closed := by
  cases pc <;> cases h
  · dsimp only
    split_ifs <;> rfl
  · unfold gatherBody
    split_ifs <;> rfl
  · exact Connection.consumeWriteData_closed conn _
  · unfold clearBody
    dsimp only
    split_ifs <;> rfl
  · unfold extractBody
    split_ifs
    · rfl
    · split
      · rfl
      · exact Connection.extractOneRequest_closed ‹_›
  · unfold respondBody
    split_ifs
    · rfl
    · exact Answer.queue_closed _ _
  · dsimp only
    split_ifs <;> rfl
  · cases hpc

/-- No section opens a closed connection again. -/
theorem closed_of_locked {pc : Pc C} {c : C} {body : Connection → Section C}
    (h : pc.code reply = .locked c body) {conn : Connection} (hclosed : conn.closed = true) :
    (body conn).conn.closed = true := by
  cases hpc : pc.pastErase with
  | false => rw [closed_eq_of_locked h hpc, hclosed]
  | true => cases pc <;> cases hpc <;> cases h; rfl

/-- A section is about the connection that the program counter holds. -/
theorem conn?_of_locked {pc : Pc C} {c : C} {body : Connection → Section C}
    (h : pc.code reply = .locked c body) : pc.conn? = some c := by
  cases pc <;> cases h <;> rfl

end Pc

end MiniServer
