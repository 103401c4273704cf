import MiniServer.Text.Bytes

/-!
# A client connection

`Connection` holds the bytes read and not yet framed (`readBuf`), the response being sent
(`writeBuf`, then `mappedFile`, each with an offset) and the flags the handlers share.

`size_t` arithmetic is modulo `2 ^ 64` where the source adds or subtracts lengths; sizes of
strings and files that exist are natural numbers.
-/

namespace MiniServer

/-- A `size_t` sum. -/
def addSize (a b : ℕ) : ℕ := (a + b) % 2 ^ 64

/-- A `size_t` difference of two sizes. -/
def subSize (a b : ℕ) : ℕ := if b ≤ a then a - b else 2 ^ 64 - (b - a)

theorem addSize_of_lt {a b : ℕ} (h : a + b < 2 ^ 64) : addSize a b = a + b := Nat.mod_eq_of_lt h

theorem subSize_of_le {a b : ℕ} (h : b ≤ a) : subSize a b = a - b := if_pos h

/-- `class Connection`.  The bytes of a mapped file stand for the mapping. -/
structure Connection where
  fd : ℕ
  peerIp : Bytes
  readBuf : Bytes := []
  writeBuf : Bytes := []
  mappedFile : Option Bytes := none
  writeOffset : ℕ := 0
  fileOffset : ℕ := 0
  writeReady : Bool := false
  closeAfterWrite : Bool := false
  processing : Bool := false
  closed : Bool := false
  deriving DecidableEq, Repr

namespace Connection

/-! ### Reading -/

/-- `Connection::appendReadData`. -/
def appendReadData (c : Connection) (data : Bytes) : Connection :=
  { c with readBuf := c.readBuf ++ data }

/-- The text `parseContentLength` searches for. -/
def contentLengthKey : Bytes := .ofString "content-length:"

/-- `Connection::parseContentLength`. -/
def parseContentLength (headersText : Bytes) : ℕ :=
  let lowered := headersText.map Bytes.toLower
  match Text.find contentLengthKey lowered with
  | none => 0
  | some pos =>
    let rest := Bytes.skipBlanks (lowered.drop (pos + contentLengthKey.length))
    let digits := rest.takeWhile Bytes.isDigit
    if digits = [] then 0
    -- an out-of-range number ends in the `catch` and counts as no length
    else (Bytes.stoul digits).getD 0

/-- The length that `extractOneRequest` takes for the request at the front of the buffer, `none`
while its header block is incomplete. -/
def requestLength (readBuf : Bytes) : Option ℕ :=
  (Text.find (Bytes.crlf ++ Bytes.crlf) readBuf).map fun headerEnd =>
    let headersLen := addSize headerEnd 4
    addSize headersLen (parseContentLength (readBuf.take headersLen))

/-- The buffer cut by `extractOneRequest`: the raw request and what stays in `readBuf`. -/
def cutRequest (readBuf : Bytes) : Option (Bytes × Bytes) :=
  match requestLength readBuf with
  | none => none
  | some totalLen =>
    if readBuf.length < totalLen then none
    else some (readBuf.take totalLen, readBuf.drop totalLen)

/-- `Connection::extractOneRequest`; `none` is the answer `false`, before which the source has
not written to the connection. -/
def extractOneRequest (c : Connection) : Option (Bytes × Connection) :=
  (cutRequest c.readBuf).map fun (rawRequest, rest) => (rawRequest, { c with readBuf := rest })

/-- `Connection::hasPendingRead`. -/
def hasPendingRead (c : Connection) : Bool := c.readBuf ≠ []

/-! ### Writing -/

/-- `mappedFile_->size()`, 0 when there is no file. -/
def fileSize (c : Connection) : ℕ := (c.mappedFile.getD []).length

/-- `Connection::hasWriteData`. -/
def hasWriteData (c : Connection) : Bool :=
  decide (c.writeOffset < c.writeBuf.length) ||
    (c.mappedFile.isSome && decide (c.fileOffset < c.fileSize))

/-- `Connection::appendWriteData`: it replaces what is being written. -/
def appendWriteData (c : Connection) (data : Bytes) : Connection :=
  { c with
    writeBuf := data, writeOffset := 0, fileOffset := 0, mappedFile := none
    writeReady := data ≠ [] }

/-- `Connection::setMappedWriteData`. -/
def setMappedWriteData (c : Connection) (header file : Bytes) : Connection :=
  let c' := { c with
    writeBuf := header, writeOffset := 0, fileOffset := 0, mappedFile := some file }
  { c' with writeReady := c'.hasWriteData }

/-- `Connection::consumeWriteData`. -/
def consumeWriteData (c : Connection) (bytes : ℕ) : Connection :=
  let headerConsumed := min bytes (subSize c.writeBuf.length c.writeOffset)
  let c' := { c with writeOffset := c.writeOffset + headerConsumed }
  let bytes := bytes - headerConsumed
  if 0 < bytes ∧ c.mappedFile.isSome then
    { c' with fileOffset := c.fileOffset + min bytes (subSize c.fileSize c.fileOffset) }
  else c'

/-- `Connection::clearWriteData`. -/
def clearWriteData (c : Connection) : Connection :=
  { c with writeBuf := [], mappedFile := none, writeOffset := 0, fileOffset := 0 }

/-- The array `handleWrite` passes to `writev`: the rest of the header, then the rest of the
file, each only when it is not empty. -/
def iovecs (c : Connection) : List Bytes :=
  (if c.writeOffset < c.writeBuf.length then
    [(c.writeBuf.drop c.writeOffset).take (subSize c.writeBuf.length c.writeOffset)] else []) ++
  (if c.mappedFile.isSome ∧ c.fileOffset < c.fileSize then
    [((c.mappedFile.getD []).drop c.fileOffset).take (subSize c.fileSize c.fileOffset)] else [])

/-! ### Flags -/

/-- `Connection::setWriteReady`. -/
def setWriteReady (c : Connection) (value : Bool) : Connection := { c with writeReady := value }

/-- `Connection::setCloseAfterWrite`. -/
def setCloseAfterWrite (c : Connection) (value : Bool) : Connection :=
  { c with closeAfterWrite := value }

/-- `Connection::setProcessing`. -/
def setProcessing (c : Connection) (value : Bool) : Connection := { c with processing := value }

/-- `Connection::markClosed`. -/
def markClosed (c : Connection) : Connection := { c with closed := true }

/-! ### What the operations leave alone -/

section Fields

variable (c : Connection) (n : ℕ) (value : Bool)

@[simp] theorem clearWriteData_closeAfterWrite :
    c.clearWriteData.closeAfterWrite = c.closeAfterWrite := rfl
@[simp] theorem setWriteReady_closeAfterWrite :
    (c.setWriteReady value).closeAfterWrite = c.closeAfterWrite := rfl
@[simp] theorem markClosed_closed : c.markClosed.closed = true := rfl

@[simp] theorem consumeWriteData_closed : (c.consumeWriteData n).closed = c.closed := by
  unfold consumeWriteData; dsimp only; split_ifs <;> rfl

@[simp] theorem consumeWriteData_readBuf : (c.consumeWriteData n).readBuf = c.readBuf := by
  unfold consumeWriteData; dsimp only; split_ifs <;> rfl

@[simp] theorem consumeWriteData_closeAfterWrite :
    (c.consumeWriteData n).closeAfterWrite = c.closeAfterWrite := by
  unfold consumeWriteData; dsimp only; split_ifs <;> rfl

end Fields

theorem extractOneRequest_closed {c c' : Connection} {raw : Bytes}
    (h : c.extractOneRequest = some (raw, c')) : c'.closed = c.closed := by
  obtain ⟨p, -, heq⟩ := Option.map_eq_some_iff.1 h
  cases heq
  rfl

end Connection

end MiniServer
