import MiniServer.Connection.Pipelining
import MiniServer.Http.Receiving
import MiniServer.Server.Network

/-!
# The way of a request and back

A client writes requests one behind the other, without waiting, and cuts what it reads as
`recv_response` of the stress test does.  Between its two ends are the sockets, the buffers of the
connection, the workers and the other clients, and none of them shows: the client gets one response
for each request, in order (`round_trip`).
-/

namespace MiniServer

open Connection (framer Request)

/-- What the server answers to a list of raw requests. -/
theorem Site.exists_responses (site : Site Id) (raws : List Bytes) :
    ∃ answers : List Response,
      answers.map Response.bytes = raws.map fun raw => (site.reply raw).bytes := by
  induction raws with
  | nil => exact ⟨[], rfl⟩
  | cons raw raws ih =>
    obtain ⟨answers, hanswers⟩ := ih
    obtain ⟨answer, hanswer, -⟩ := site.exists_response raw
    exact ⟨answer :: answers, by rw [List.map_cons, List.map_cons, hanswers, hanswer]⟩

/-- A client cuts a stream of responses where each of them ends. -/
theorem Client.receiveAll_bytes (answers : List Response) (k : ℕ) :
    receiveAll (answers.length + k) (answers.map Response.bytes).flatten =
      (answers.map fun a => (a.block, a.body), []) := by
  induction answers with
  | nil => cases k <;> rfl
  | cons a answers ih =>
    rw [List.map_cons, List.flatten_cons, List.length_cons, Nat.add_right_comm, receiveAll,
      (a.receive_bytes _).2]
    simp only [ih]
    rfl

namespace Network

variable {Q : Type} [PriorityQueue Q (TimerHeap.Node Fd ℕ) TimerHeap.later]
variable {site : Site Id} {idle : ℕ} {n : Network Q}

/-- **One response for each request, end to end.**  A client has sent requests, and behind them
bytes without a blank line, in any pieces, and its socket has room.  In every interleaving with the
server and all other clients, when the server rests and nothing has disturbed the connection
(`Calm`), the client cuts exactly the responses to its requests from what it reads, in order, and no
byte is left. -/
theorem round_trip {fd : Fd} {c : ConnId} (h : (lts site.reply idle).ReachableIf (Calm fd) n)
    (hrest : n.Rests fd) (hc : n.server.connections.lookup fd = some c) {requests : List Request}
    {trailing : Bytes} (htrailing : Text.find (Bytes.crlf ++ Bytes.crlf) trailing = none)
    (hsent : (n.peers c).sent = (requests.map Request.bytes).flatten ++ trailing)
    (hroom : (n.server.written c).length < (n.peers c).window) :
    ∃ answers : List Response,
      answers.map Response.bytes = requests.map (fun r => (site.reply r.bytes).bytes) ∧
      ∀ k, Client.receiveAll (requests.length + k) (n.server.written c) =
        (answers.map fun a => (a.block, a.body), []) := by
  have hn := notified_of_reachable h
  have hs := HttpServer.serving_of_reachable site.reply_bytes_ne_nil (server_reachable h)
  have howner := hs.single.owned.table fd c hc
  obtain ⟨interest, hreg⟩ := exists_armed hs.single hrest hc
  cases interest with
  | output => exact absurd (hn.rest_output hrest howner hreg) (Nat.ne_of_lt hroom)
  | input =>
    obtain ⟨hreceived, -⟩ := hn.rest_input hrest howner hreg
    obtain ⟨done, hdone, hcut⟩ := hs.fits c (hs.single.latest hc) _ (.armed hc hreg)
    -- the requests that the server has cut are those that the client has sent
    have hsentCuts : framer.Cuts (n.server.received c) (requests.map Request.bytes) trailing := by
      rw [hreceived, hsent]
      refine .of_whole (fun raw hraw => ?_) trailing
      obtain ⟨r, -, rfl⟩ := List.mem_map.1 hraw
      exact r.cutRequest_bytes
    have hnone : framer.cut trailing = none := by
      show Connection.cutRequest trailing = none
      rw [Connection.cutRequest, Connection.requestLength, htrailing]
      rfl
    have heq : done = requests.map Request.bytes :=
      hdone.cuts_received.unique hsentCuts hcut hnone
    obtain ⟨answers, hanswers⟩ := site.exists_responses (requests.map Request.bytes)
    have hwritten : n.server.written c = (answers.map Response.bytes).flatten := by
      rw [hanswers, ← heq]
      exact hdone.written
    have hlength : requests.length = answers.length := by
      have hlength := congrArg List.length hanswers
      simpa using hlength.symm
    refine ⟨answers, by rw [hanswers, List.map_map]; rfl, fun k => ?_⟩
    rw [hwritten, hlength]
    exact Client.receiveAll_bytes answers k

/-- A request for a page. -/
def getPage : Request where
  block := HttpServer.pageRequest
  body := []
  ends := by decide +kernel
  announces := rfl
  small := by decide

/-- Two requests and the beginning of a third. -/
def pipelinedBytes : Bytes :=
  ([getPage, getPage].map Request.bytes).flatten ++ Bytes.ofString "GET /"

/-- The socket has room for a response, and a worker writes it. -/
def writeSteps : List Label :=
  [.main .done, .main .done, .main .done, .main .done, .main (.events [.client 5 .output]),
    .main .done, .main .done, .main .done, .main .done, .start, .task 0 .done, .task 0 .done,
    .task 0 (.write (.wrote 299))]

/-- Everything is read at once, and the responses are written one after the other. -/
def pipelinedSteps : List Label :=
  HttpServer.dispatchRun ++
    [.start, .task 0 .done, .task 0 (.read (.data pipelinedBytes)), .task 0 .done,
      .task 0 (.read .again)] ++
    List.replicate 7 (.task 0 .done) ++ writeSteps ++ List.replicate 10 (.task 0 .done) ++
    writeSteps ++ List.replicate 6 (.task 0 .done) ++ List.replicate 4 (.main .done)

/-- The client sends its requests before it is accepted. -/
def pipelinedRun : List NetLabel :=
  [.send 0 pipelinedBytes, .take 0 1000] ++ pipelinedSteps.map .server

theorem round_trip_page :
    ∃ n, sample.ReachableIf (Calm 5) n ∧ (n.peers 0).sent = pipelinedBytes ∧
      ∃ answers : List Response,
        answers.map Response.bytes =
          [getPage, getPage].map (fun r => (Site.empty.reply r.bytes).bytes) ∧
        Client.receiveAll 2 (n.server.written 0) =
          (answers.map fun a => (a.block, a.body), []) := by
  have hallowed : sample.Allowed (Calm 5) sample.init pipelinedRun := by decide +kernel
  obtain ⟨n, hrun, hmain, hqueue, htasks, hsilent, hc, hsent, hroom⟩ :
      ∃ n ∈ sample.run sample.init pipelinedRun, n.server.main = .wait ∧ n.server.queue = [] ∧
        n.server.tasks = [] ∧ n.signals 5 = false ∧ n.server.connections.lookup 5 = some 0 ∧
        (n.peers 0).sent = pipelinedBytes ∧
        (n.server.written 0).length < (n.peers 0).window := by decide +kernel
  have h := LTS.ReachableIf.run .init hallowed hrun
  have htrailing : Text.find (Bytes.crlf ++ Bytes.crlf) (Bytes.ofString "GET /") = none := by
    decide
  obtain ⟨answers, hanswers, hreceive⟩ :=
    round_trip h ⟨hmain, hqueue, htasks, hsilent⟩ hc htrailing hsent hroom
  exact ⟨n, h, hsent, answers, hanswers, hreceive 0⟩

end Network

end MiniServer
