import Mathlib.Logic.Function.Basic
import MiniServer.Handler.Code
import MiniServer.LTS.Basic
import MiniServer.LTS.Threads
import MiniServer.Timer.Heap

/-!
# The server

`HttpServer` is the state of the whole server: the tables under `connectionsMutex_`, the connection
objects, the kernel's open descriptors with their `epoll` registrations, the tasks of the thread
pool and the main thread, which runs `eventLoop` and then `stop`.

A step is one locked section or one system call of one thread; every result that the kernel may
choose is part of the label.  The number of workers is not bounded, so the runs of a pool of any
size are among the runs here.

Not part of the program, and read by none of its steps, are `File.owner`, `File.lastMoved`,
`File.unrefreshed`, `Task.owner` and the fields `latest`, `received`, `written` and `ended` of
`HttpServer`: they record which connection a descriptor number and a task were meant for, when bytes
moved, and which.
-/

namespace MiniServer

/-- Descriptor numbers. -/
abbrev Fd := ℕ

/-- Identities of connection objects. -/
abbrev ConnId := ℕ

/-- An open client socket. -/
structure File where
  /-- The connection it was accepted for. -/
  owner : ConnId
  /-- Its `epoll` registration: `none` when there is none, `some none` when it is disarmed. -/
  epoll : Option (Option Interest) := none
  /-- When a byte was last read from it or written to it. -/
  lastMoved : Option ℕ := none
  /-- Bytes have moved since its timer was last refreshed. -/
  unrefreshed : Bool := false
  deriving DecidableEq

/-- A task of the thread pool; the source keeps only the number `fd`. -/
structure Task where
  fd : Fd
  /-- The connection it was dispatched for. -/
  owner : ConnId
  pc : Pc ConnId
  deriving DecidableEq

/-- What an event is tested for: `EPOLLHUP | EPOLLERR`, then `EPOLLIN`, then `EPOLLOUT`. -/
inductive Kind where
  | hangup
  | input
  | output
  deriving DecidableEq

/-- A socket armed for `i` can deliver this kind of event. -/
def Kind.possible : Kind → Interest → Bool
  | .hangup, _ => true
  | .input, i => i = .input
  | .output, i => i = .output

/-- An entry of the array that `epoll_wait` fills. -/
inductive Event where
  | listen
  | client (fd : Fd) (kind : Kind)
  deriving DecidableEq

/-- Where the main thread goes on after `closeConnection`. -/
inductive Caller where
  /-- In the loop over the events. -/
  | events (rest : List Event)
  /-- In the loop of `closeIdleConnections`. -/
  | idle (rest : List Fd)
  deriving DecidableEq

/-- The main thread. -/
inductive Main where
  /-- Before the test of `running_`. -/
  | loop
  /-- Before `epoll_wait`. -/
  | wait
  /-- In the loop over the events. -/
  | events (rest : List Event)
  /-- `handleAccept`, before `accept`. -/
  | accept (rest : List Event)
  /-- Before the new connection is put into the table. -/
  | register (fd : Fd) (peerIp : Bytes) (rest : List Event)
  /-- Before `epoller_.add`. -/
  | add (fd : Fd) (rest : List Event)
  /-- `dispatchRead` or `dispatchWrite`, before `getConnection`. -/
  | dispatch (fd : Fd) (interest : Interest) (rest : List Event)
  /-- Before `beginProcessing`. -/
  | begin (fd : Fd) (c : ConnId) (interest : Interest) (rest : List Event)
  /-- Before `enqueue`. -/
  | enqueue (fd : Fd) (c : ConnId) (interest : Interest) (rest : List Event)
  /-- In `closeConnection`. -/
  | closing (fd : Fd) (pc : Pc ConnId) (caller : Caller)
  /-- `closeIdleConnections`, before `popExpired`. -/
  | idle
  /-- In the loop of `closeIdleConnections`. -/
  | expired (rest : List Fd)
  /-- `stop`, before `running_` is cleared. -/
  | stop
  /-- Before the workers are joined. -/
  | join
  /-- Before the section of `stop` that closes every connection. -/
  | shutdown
  /-- After `stop`. -/
  | stopped
  deriving DecidableEq

/-- The main thread after `closeConnection`. -/
def Caller.main : Caller → Main
  | .events rest => .events rest
  | .idle rest => .expired rest

/-- `class HttpServer` and the kernel under it. -/
structure HttpServer (Q : Type) where
  now : ℕ := 0
  /-- `running_`. -/
  running : Bool := true
  /-- `connections_`. -/
  connections : Finmap fun _ : Fd => ConnId := ∅
  /-- `timers_`. -/
  timers : TimerHeap Q Fd ℕ
  /-- The connection objects; those from `next` on are not made yet. -/
  conns : ConnId → Connection := fun _ => { fd := 0, peerIp := [] }
  next : ConnId := 0
  /-- The open client descriptors. -/
  files : Fd → Option File := fun _ => none
  /-- The last connection that got a descriptor number. -/
  latest : Fd → Option ConnId := fun _ => none
  /-- The bytes read from the socket of a connection. -/
  received : ConnId → Bytes := fun _ => []
  /-- The bytes written to the socket of a connection. -/
  written : ConnId → Bytes := fun _ => []
  /-- `read` has returned 0 for a connection. -/
  ended : ConnId → Bool := fun _ => false
  /-- Tasks that wait for a worker. -/
  queue : List Task := []
  /-- Tasks that a worker runs. -/
  tasks : List Task := []
  main : Main := .loop

/-- What the kernel answers to a handler; `done` stands for actions without a choice. -/
inductive Sys where
  | done
  | read (r : ReadResult)
  | write (r : WriteResult)
  deriving DecidableEq

/-- The answer of the kernel means that bytes have moved. -/
def Sys.movesBytes : Sys → Bool
  | .read (.data _) => true
  | .write (.wrote _) => true
  | _ => false

/-- What the kernel answers to the main thread; `done` stands for steps without a choice. -/
inductive MainSys where
  | done
  /-- `epoll_wait` returns these events. -/
  | events (evs : List Event)
  /-- `epoll_wait` fails with `EINTR`. -/
  | interrupted
  /-- `epoll_wait` fails with another error. -/
  | failed
  /-- `accept` returns a descriptor. -/
  | accepted (fd : Fd) (peerIp : Bytes)
  /-- `accept` fails. -/
  | refused
  deriving DecidableEq

/-- Steps of the server. -/
inductive Label where
  /-- Time passes. -/
  | tick (d : ℕ)
  /-- `requestStop`. -/
  | requestStop
  | main (r : MainSys)
  /-- A worker takes the first task of the queue. -/
  | start
  /-- The worker that runs task `i` makes a step. -/
  | task (i : ℕ) (r : Sys)
  deriving DecidableEq

namespace HttpServer

variable {Q : Type}

/-! ### The kernel -/

/-- Change the open file behind a number; a call on a closed number fails and changes nothing. -/
def updateFile (s : HttpServer Q) (fd : Fd) (f : File → File) : HttpServer Q :=
  { s with files := Function.update s.files fd ((s.files fd).map f) }

/-- `epoll_ctl` with `EPOLL_CTL_ADD`; an existing registration is not changed. -/
def epollAdd (s : HttpServer Q) (fd : Fd) (interest : Interest) : HttpServer Q :=
  s.updateFile fd fun f =>
    { f with epoll := match f.epoll with
        | none => some (some interest)
        | some r => some r }

/-- `epoll_ctl` with `EPOLL_CTL_MOD`; it needs a registration. -/
def epollMod (s : HttpServer Q) (fd : Fd) (interest : Interest) : HttpServer Q :=
  s.updateFile fd fun f => { f with epoll := f.epoll.map fun _ => some interest }

/-- `epoll_ctl` with `EPOLL_CTL_DEL`. -/
def epollDel (s : HttpServer Q) (fd : Fd) : HttpServer Q :=
  s.updateFile fd fun f => { f with epoll := none }

/-- `close`. -/
def closeFile (s : HttpServer Q) (fd : Fd) : HttpServer Q :=
  { s with files := Function.update s.files fd none }

/-- Bytes move on a socket. -/
def moveBytes (s : HttpServer Q) (fd : Fd) : HttpServer Q :=
  s.updateFile fd fun f => { f with lastMoved := some s.now, unrefreshed := true }

/-- Change the record of the connection that the open descriptor was accepted for. -/
def updateRecord {α : Type} (s : HttpServer Q) (fd : Fd) (record : ConnId → α) (f : α → α) :
    ConnId → α :=
  match s.files fd with
  | none => record
  | some file => Function.update record file.owner (f (record file.owner))

/-- `read` takes bytes from a socket. -/
def readBytes (s : HttpServer Q) (fd : Fd) (bytes : Bytes) : HttpServer Q :=
  { s.moveBytes fd with received := s.updateRecord fd s.received (· ++ bytes) }

/-- `read` returns 0. -/
def readEnd (s : HttpServer Q) (fd : Fd) : HttpServer Q :=
  { s with ended := s.updateRecord fd s.ended fun _ => true }

/-- A socket takes bytes from `writev`. -/
def writeBytes (s : HttpServer Q) (fd : Fd) (bytes : Bytes) : HttpServer Q :=
  { s.moveBytes fd with written := s.updateRecord fd s.written (· ++ bytes) }

/-- The results that `read` can have. -/
def canRead (s : HttpServer Q) (fd : Fd) : ReadResult → Bool
  | .data bytes => (s.files fd).isSome && bytes ≠ []
  | .eof => (s.files fd).isSome
  | .again => (s.files fd).isSome
  | .error => true

/-- The results that `writev` can have. -/
def canWrite (s : HttpServer Q) (fd : Fd) (iov : List Bytes) : WriteResult → Bool
  | .wrote n => (s.files fd).isSome && 0 < n && n ≤ iov.flatten.length
  | .again => (s.files fd).isSome
  | .error => true

/-- `epoll_wait` delivers an event: the socket must be armed, and is disarmed by it. -/
def deliver (s : HttpServer Q) : Event → Option (HttpServer Q)
  | .listen => some s
  | .client fd kind =>
    match (s.files fd).bind File.epoll with
    | some (some interest) =>
      if kind.possible interest then some (s.updateFile fd fun f => { f with epoll := some none })
      else none
    | _ => none

/-- `epoll_wait` delivers a list of events. -/
def deliverAll (s : HttpServer Q) : List Event → Option (HttpServer Q)
  | [] => some s
  | ev :: evs => (s.deliver ev).bind fun s => s.deliverAll evs

/-! ### Handlers -/

/-- Replace a connection object. -/
def setConn (s : HttpServer Q) (c : ConnId) (conn : Connection) : HttpServer Q :=
  { s with conns := Function.update s.conns c conn }

section Step

variable [PriorityQueue Q (TimerHeap.Node Fd ℕ) TimerHeap.later]
variable (reply : Bytes → Answer) (idle : ℕ)

/-- `timers_.addOrUpdate` with the idle timeout from now. -/
def refreshTimer (s : HttpServer Q) (fd : Fd) : HttpServer Q :=
  { s with timers := s.timers.addOrUpdate fd (s.now + idle) }.updateFile fd fun f =>
    { f with unrefreshed := false }

/-- The meaning of an action of a thread that works on `fd`. -/
def perform (s : HttpServer Q) (fd : Fd) :
    Action ConnId → Sys → Option (HttpServer Q × Option (Pc ConnId))
  | .getConnection next, .done => some (s, next (s.connections.lookup fd))
  | .read next, .read r =>
    if s.canRead fd r then
      some (match r with
        | .data bytes => s.readBytes fd bytes
        | .eof => s.readEnd fd
        | _ => s, some (next r))
    else none
  | .writev iov next, .write r =>
    if s.canWrite fd iov r then
      some (match r with
        | .wrote n => s.writeBytes fd (iov.flatten.take n)
        | _ => s, some (next r))
    else none
  | .locked c body, .done =>
    let sec := body (s.conns c)
    some (match sec.arm with
      | none => s.setConn c sec.conn
      | some interest => (s.setConn c sec.conn).epollMod fd interest, sec.next)
  | .refresh next, .done => some (s.refreshTimer idle fd, some next)
  | .mod interest next, .done => some (s.epollMod fd interest, next)
  | .log _ _, .done => some (s, none)
  | .erase next, .done =>
    match s.connections.lookup fd with
    | none => some (s, next none)
    | some c => some
        ({ s with connections := s.connections.erase fd, timers := s.timers.remove fd },
          next (some c))
  | .del next, .done => some (s.epollDel fd, some next)
  | .close, .done => some (s.closeFile fd, none)
  | _, _ => none

/-- A step of a worker that runs a task. -/
def taskStep (s : HttpServer Q) (r : Sys) (t : Task) : Option (HttpServer Q × Option Task) :=
  (s.perform idle t.fd (t.pc.code reply) r).map fun (s, pc) =>
    (s, pc.map fun pc => { t with pc })

/-! ### The main thread -/

/-- A new entry of `connections_`. -/
def register (s : HttpServer Q) (fd : Fd) (peerIp : Bytes) : HttpServer Q :=
  { s.setConn s.next { fd, peerIp } with
    connections := s.connections.insert fd s.next
    timers := s.timers.addOrUpdate fd (s.now + idle)
    next := s.next + 1 }

/-- The section of `stop` that closes every connection.  The workers are joined, so no other
thread is left to see its calls of `close` one by one. -/
def closeAll (s : HttpServer Q) : HttpServer Q :=
  { s with
    conns := fun c =>
      if ∃ fd ∈ s.connections.keys, s.connections.lookup fd = some c then (s.conns c).markClosed
      else s.conns c
    files := fun fd => if fd ∈ s.connections then none else s.files fd
    connections := ∅ }

/-- The first program counter of a task. -/
def beginPc : Interest → Pc ConnId
  | .input => .readBegin
  | .output => .writeBegin

/-- A step of the main thread. -/
def mainStep (s : HttpServer Q) (r : MainSys) : Option (HttpServer Q) :=
  match s.main, r with
  | .loop, .done => some { s with main := if s.running then .wait else .stop }
  | .wait, .events evs => (s.deliverAll evs).map fun s => { s with main := .events evs }
  | .wait, .interrupted => some { s with main := .loop }
  | .wait, .failed => some { s with main := .stop }
  | .events [], .done => some { s with main := .idle }
  | .events (.listen :: rest), .done => some { s with main := .accept rest }
  | .events (.client fd .hangup :: rest), .done =>
    some { s with main := .closing fd .closeBegin (.events rest) }
  | .events (.client fd .input :: rest), .done => some { s with main := .dispatch fd .input rest }
  | .events (.client fd .output :: rest), .done =>
    some { s with main := .dispatch fd .output rest }
  | .accept rest, .accepted fd peerIp =>
    -- a number is free once `close` has returned
    if (s.files fd).isSome then none
    else some { s with
      files := Function.update s.files fd (some { owner := s.next })
      latest := Function.update s.latest fd (some s.next)
      main := .register fd peerIp rest }
  | .accept rest, .refused => some { s with main := .events rest }
  | .register fd peerIp rest, .done => some { s.register idle fd peerIp with main := .add fd rest }
  | .add fd rest, .done => some { s.epollAdd fd .input with main := .accept rest }
  | .dispatch fd interest rest, .done =>
    match s.connections.lookup fd with
    | none => some { s with main := .events rest }
    | some c => some { s with main := .begin fd c interest rest }
  | .begin fd c interest rest, .done =>
    if !(s.conns c).closed && !(s.conns c).processing then
      some { s.setConn c ((s.conns c).setProcessing true) with main := .enqueue fd c interest rest }
    else some { s with main := .events rest }
  | .enqueue fd c interest rest, .done =>
    some { s with queue := s.queue ++ [⟨fd, c, beginPc interest⟩], main := .events rest }
  | .closing fd pc caller, .done =>
    (s.perform idle fd (pc.code reply) .done).map fun (s, pc') =>
      { s with main := match pc' with
          | some pc' => .closing fd pc' caller
          | none => caller.main }
  | .idle, .done =>
    let (expired, timers) := s.timers.popExpired s.now
    some { s with timers, main := .expired expired }
  | .expired [], .done => some { s with main := .loop }
  | .expired (fd :: rest), .done => some { s with main := .closing fd .closeBegin (.idle rest) }
  | .stop, .done => some { s with running := false, main := .join }
  | .join, .done =>
    if s.queue = [] ∧ s.tasks = [] then some { s with main := .shutdown } else none
  | .shutdown, .done => some { s.closeAll with main := .stopped }
  | _, _ => none

/-! ### Runs -/

/-- A step of the server. -/
def step (s : HttpServer Q) : Label → Option (HttpServer Q)
  | .tick d => some { s with now := s.now + d }
  | .requestStop => some { s with running := false }
  | .main r => s.mainStep reply idle r
  | .start =>
    match s.queue with
    | [] => none
    | t :: queue => some { s with queue, tasks := s.tasks ++ [t] }
  | .task i r =>
    (stepThread (s.taskStep reply idle r) s.tasks i).map fun (s, tasks) => { s with tasks }

/-- The server from its start on. -/
def lts : LTS (HttpServer Q) Label where
  init := { timers := TimerHeap.new }
  step s l := s.step reply idle l

end Step

/-! ### A sample run -/

/-- A server without files and accounts, and an idle timeout of 30. -/
abbrev sample : LTS (HttpServer (TimerHeap.SortedNodes ℕ ℕ)) Label := lts Site.empty.reply 30

/-- One client is accepted, and a task for its first event waits in the queue. -/
def dispatchRun : List Label :=
  [.main .done, .main (.events [.listen]), .main .done, .main (.accepted 5 []), .main .done,
    .main .done, .main .refused, .main .done, .main .done, .main .done, .main .done,
    .main (.events [.client 5 .input]), .main .done, .main .done, .main .done, .main .done]

end HttpServer

end MiniServer
