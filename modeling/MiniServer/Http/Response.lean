import Mathlib.Data.Prod.Basic
import MiniServer.Text.Bytes

/-!
# HTTP responses

`HttpResponse.prepare` answers with a header and a mapped file or a body, `HttpResponse.build` and
`HttpResponse.buildText` with one text.

Opening a file is an effect: the functions that open one are written for an arbitrary monad
with an operation `openFile`, which is given the name that the C interface sees and answers
with the contents of a readable regular file.  `Id` gives the server a fixed file system, a log
of the names gives the names that are tried.
-/

namespace MiniServer

/-- The operating system's `open`, with the contents of the file. -/
abbrev OpenFile (m : Type → Type) := Bytes → m (Option Bytes)

/-- `MappedFile::open`; the bytes of the file stand for the mapping. -/
def MappedFile.open {m : Type → Type} (openFile : OpenFile m) (filepath : Bytes) :
    m (Option Bytes) :=
  openFile (Bytes.cstr filepath)

/-- `struct PreparedResponse`. -/
structure PreparedResponse where
  statusCode : ℤ
  header : Bytes := []
  body : Bytes := []
  file : Option Bytes := none
  deriving DecidableEq, Repr

/-- `PreparedResponse::bodySize`. -/
def PreparedResponse.bodySize (p : PreparedResponse) : ℕ :=
  match p.file with
  | some file => file.length
  | none => p.body.length

/-- `class HttpResponse`, without the two members that no function uses. -/
structure HttpResponse where
  statusCode : ℤ := 200
  contentType : Bytes := []
  body : Bytes := []
  deriving DecidableEq, Repr

namespace HttpResponse

/-! ### Tables -/

/-- `MIME_MAP`. -/
def mimeMap : List (Bytes × Bytes) :=
  [("html", "text/html; charset=utf-8"),
   ("htm", "text/html; charset=utf-8"),
   ("css", "text/css; charset=utf-8"),
   ("js", "application/javascript; charset=utf-8"),
   ("json", "application/json; charset=utf-8"),
   ("xml", "application/xml; charset=utf-8"),
   ("txt", "text/plain; charset=utf-8"),
   ("md", "text/markdown; charset=utf-8"),
   ("csv", "text/csv; charset=utf-8"),
   ("png", "image/png"),
   ("jpg", "image/jpeg"),
   ("jpeg", "image/jpeg"),
   ("gif", "image/gif"),
   ("svg", "image/svg+xml"),
   ("ico", "image/x-icon"),
   ("webp", "image/webp"),
   ("bmp", "image/bmp"),
   ("mp3", "audio/mpeg"),
   ("mp4", "video/mp4"),
   ("webm", "video/webm"),
   ("ogg", "audio/ogg"),
   ("wav", "audio/wav"),
   ("woff", "font/woff"),
   ("woff2", "font/woff2"),
   ("ttf", "font/ttf"),
   ("eot", "application/vnd.ms-fontobject"),
   ("zip", "application/zip"),
   ("gz", "application/gzip"),
   ("pdf", "application/pdf")].map (Prod.map Bytes.ofString Bytes.ofString)

/-- `HttpResponse::getMimeType`. -/
def getMimeType (path : Bytes) : Bytes :=
  let ext := ((path.reverse.takeWhile (· ≠ 46)).reverse).map Bytes.toLower
  -- a path without dot has no extension
  if 46 ∈ path then (mimeMap.lookup ext).getD (.ofString "application/octet-stream")
  else .ofString "application/octet-stream"

/-- `STATUS_MAP`. -/
def statusMap : List (ℤ × Bytes) :=
  [(200, "OK"),
   (201, "Created"),
   (301, "Moved Permanently"),
   (304, "Not Modified"),
   (400, "Bad Request"),
   (401, "Unauthorized"),
   (403, "Forbidden"),
   (404, "Not Found"),
   (405, "Method Not Allowed"),
   (409, "Conflict"),
   (413, "Payload Too Large"),
   (500, "Internal Server Error"),
   (502, "Bad Gateway"),
   (503, "Service Unavailable")].map (Prod.map id Bytes.ofString)

/-- `HttpResponse::getStatusLine`. -/
def getStatusLine (code : ℤ) : Bytes :=
  .ofString "HTTP/1.1 " ++ Bytes.ofInt code ++ .ofString " " ++
    (statusMap.lookup code).getD (.ofString "Unknown") ++ Bytes.crlf

/-! ### Texts -/

/-- A header line. -/
def headerLine (name : String) (value : Bytes) : Bytes :=
  .ofString name ++ .ofString ": " ++ value ++ Bytes.crlf

/-- The value of the `Connection` header. -/
def connectionValue (isKeepAlive : Bool) : Bytes :=
  if isKeepAlive then .ofString "keep-alive" else .ofString "close"

/-- `HttpResponse::buildHeader`. -/
def buildHeader (statusCode : ℤ) (contentType : Bytes) (contentLength : ℕ) (isKeepAlive : Bool) :
    Bytes :=
  getStatusLine statusCode ++
    headerLine "Server" (.ofString "MiniServer/1.0") ++
    headerLine "Content-Type" contentType ++
    headerLine "Content-Length" (Bytes.ofNat contentLength) ++
    headerLine "Connection" (connectionValue isKeepAlive) ++
    headerLine "Accept-Ranges" (.ofString "bytes") ++
    Bytes.crlf

/-- `HttpResponse::buildText`. -/
def buildText (statusCode : ℤ) (body : Bytes) (isKeepAlive : Bool) (contentType : Bytes) : Bytes :=
  getStatusLine statusCode ++
    headerLine "Server" (.ofString "MiniServer/1.0") ++
    headerLine "Content-Type" contentType ++
    headerLine "Content-Length" (Bytes.ofNat body.length) ++
    headerLine "Connection" (connectionValue isKeepAlive) ++
    Bytes.crlf ++
    body

/-- The content type of the pages the server makes itself. -/
def htmlType : Bytes := .ofString "text/html; charset=utf-8"

/-- The body of a refused path. -/
def forbiddenPage : Bytes :=
  .ofString "<html><body><h1>403 Forbidden</h1><p>Access denied.</p></body></html>"

/-- The body in place of a missing index page. -/
def welcomePage : Bytes :=
  .ofString "<html><body>" ++
  .ofString "<h1>Welcome to MiniServer!</h1>" ++
  .ofString "<p>Static file server is running.</p>" ++
  .ofString "<p>Put your files in the <b>webroot/</b> directory.</p>" ++
  .ofString "</body></html>"

/-- The body of a missing file. -/
def notFoundPage : Bytes :=
  .ofString "<html><body>" ++
  .ofString "<h1>404 Not Found</h1>" ++
  .ofString "<p>The requested URL was not found on this server.</p>" ++
  .ofString "</body></html>"

/-! ### Static files -/

/-- The path contains `".."`. -/
def hasDots (path : Bytes) : Bool := (Text.find [46, 46] path).isSome

/-- The path asks for the index page. -/
def isIndex (path : Bytes) : Bool := path = .ofString "/" || path = []

section Monadic

variable {m : Type → Type} [Monad m] (openFile : OpenFile m)

/-- `HttpResponse::readFileContent`: the contents, `none` for the answer `false`. -/
def readFileContent (filepath : Bytes) : m (Option Bytes) := openFile (Bytes.cstr filepath)

/-- What `prepare` does before it builds the header: the response without header, and the content
type. -/
def prepareBody (path htmlRoot : Bytes) : m (PreparedResponse × Bytes) := do
  if hasDots path then
    return ({ statusCode := 403, body := forbiddenPage }, htmlType)
  else
    let filepath := if isIndex path then htmlRoot ++ .ofString "/index.html" else htmlRoot ++ path
    match ← MappedFile.open openFile filepath with
    | some file => return ({ statusCode := 200, file := some file }, getMimeType filepath)
    | none =>
      if isIndex path then return ({ statusCode := 200, body := welcomePage }, htmlType)
      else return ({ statusCode := 404, body := notFoundPage }, htmlType)

/-- `HttpResponse::prepare`; it does not use the object. -/
def prepare (path : Bytes) (isKeepAlive : Bool) (htmlRoot : Bytes) : m PreparedResponse := do
  let (prepared, contentType) ← prepareBody openFile path htmlRoot
  return { prepared with
    header := buildHeader prepared.statusCode contentType prepared.bodySize isKeepAlive }

/-- What `build` does to the object before it builds the text. -/
def buildBody (r : HttpResponse) (path htmlRoot : Bytes) : m HttpResponse := do
  if hasDots path then
    return { r with statusCode := 403, body := forbiddenPage, contentType := htmlType }
  else if isIndex path then
    match ← readFileContent openFile (htmlRoot ++ .ofString "/index.html") with
    | some content => return { r with statusCode := 200, contentType := htmlType, body := content }
    | none => return { r with statusCode := 200, contentType := htmlType, body := welcomePage }
  else
    let filepath := htmlRoot ++ path
    match ← readFileContent openFile filepath with
    | none => return { r with statusCode := 404, contentType := htmlType, body := notFoundPage }
    | some content =>
      return { r with statusCode := 200, contentType := getMimeType filepath, body := content }

/-- `HttpResponse::build`: the text, and the object after the call. -/
def build (r : HttpResponse) (path : Bytes) (isKeepAlive : Bool) (htmlRoot : Bytes) :
    m (Bytes × HttpResponse) := do
  let r ← buildBody openFile r path htmlRoot
  let response :=
    getStatusLine r.statusCode ++
      headerLine "Server" (.ofString "MiniServer/1.0") ++
      headerLine "Content-Type" r.contentType ++
      headerLine "Content-Length" (Bytes.ofNat r.body.length) ++
      headerLine "Connection" (connectionValue isKeepAlive) ++
      headerLine "Accept-Ranges" (.ofString "bytes") ++
      Bytes.crlf ++
      r.body
  return (response, r)

end Monadic

end HttpResponse

end MiniServer
