import MiniServer.Connection.Basic
import MiniServer.Http.Response
import MiniServer.Http.Router

/-!
# The answer to a request

`answer` is what `processConnectionTask` does between two locked sections: it parses the raw request
and makes the response, without touching the connection.  `Answer.queue` is the locked section that
follows; it writes the response and the flag to the connection.
-/

namespace MiniServer

/-- The two ways to queue a response. -/
inductive Payload where
  /-- `appendWriteData`. -/
  | text (data : Bytes)
  /-- `setMappedWriteData`. -/
  | mapped (header file : Bytes)
  deriving DecidableEq, Repr

/-- The bytes of a response on the wire. -/
def Payload.bytes : Payload → Bytes
  | text data => data
  | mapped header file => header ++ file

/-- The local variables of `processConnectionTask` when the response is made. -/
structure Answer where
  payload : Payload
  closeAfterWrite : Bool
  statusCode : ℤ
  method : Bytes
  path : Bytes
  bytesSent : ℕ
  deriving DecidableEq, Repr

/-- The complete response. -/
def Answer.bytes (a : Answer) : Bytes := a.payload.bytes

/-- The response and the flag are written to the connection. -/
def Answer.queue (a : Answer) (c : Connection) : Connection :=
  (match a.payload with
    | .text data => c.appendWriteData data
    | .mapped header file => c.setMappedWriteData header file).setCloseAfterWrite
    a.closeAfterWrite

@[simp] theorem Answer.queue_closed (a : Answer) (c : Connection) :
    (a.queue c).closed = c.closed := by
  unfold queue; split <;> rfl

@[simp] theorem Answer.queue_readBuf (a : Answer) (c : Connection) :
    (a.queue c).readBuf = c.readBuf := by
  unfold queue; split <;> rfl

@[simp] theorem Answer.queue_closeAfterWrite (a : Answer) (c : Connection) :
    (a.queue c).closeAfterWrite = a.closeAfterWrite := by
  unfold queue; split <;> rfl

/-- What the answers depend on besides the request. -/
structure Site (m : Type → Type) where
  htmlRoot : Bytes
  openFile : OpenFile m
  users : UserService m

/-- The text for a request that does not parse. -/
def badRequest : Bytes :=
  .ofString "HTTP/1.1 400 Bad Request\r\n" ++
  .ofString "Content-Type: text/plain; charset=utf-8\r\n" ++
  .ofString "Content-Length: 11\r\n" ++
  .ofString "Connection: close\r\n" ++
  .ofString "\r\n" ++
  .ofString "Bad Request"

/-- The answer to a request that `router_.route` has answered. -/
def routedAnswer (request : HttpRequest) (routed : RoutedResponse) : Answer :=
  let responseText :=
    HttpResponse.buildText routed.statusCode routed.body request.keepAlive routed.contentType
  { payload := .text responseText
    closeAfterWrite := !request.keepAlive
    statusCode := routed.statusCode
    method := request.getMethodName
    path := request.path
    bytesSent := responseText.length }

namespace Site

variable {m : Type → Type} [Monad m] (site : Site m)

/-- The answer to a parsed request. -/
def answerRequest (request : HttpRequest) : m Answer := do
  if RequestRouter.handles request then
    return routedAnswer request (← RequestRouter.route site.users request)
  else
    let prepared ←
      HttpResponse.prepare site.openFile request.path request.keepAlive site.htmlRoot
    return {
      payload := match prepared.file with
        | some file => .mapped prepared.header file
        | none => .text (prepared.header ++ prepared.body)
      closeAfterWrite := !request.keepAlive
      statusCode := prepared.statusCode
      method := request.getMethodName
      path := request.path
      bytesSent := prepared.header.length + prepared.bodySize }

/-- The answer to a raw request. -/
def answer (rawRequest : Bytes) : m Answer :=
  match ({} : HttpRequest).parse rawRequest with
  | (false, _) => return {
      payload := .text badRequest
      closeAfterWrite := true
      statusCode := 400
      method := .ofString "UNKNOWN"
      path := .ofString "-"
      bytesSent := badRequest.length }
  | (true, request) => answerRequest site request

/-- A site without files and without users. -/
def empty : Site Id where
  htmlRoot := .ofString "webroot"
  openFile _ := none
  users := ⟨fun _ _ => false, fun _ _ => false⟩

/-- The answer at a site that does not change. -/
def reply (site : Site Id) (raw : Bytes) : Answer := Id.run (site.answer raw)

end Site

end MiniServer
