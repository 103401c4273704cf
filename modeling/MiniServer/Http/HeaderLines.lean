import MiniServer.Http.Answer
import MiniServer.Http.Copying
import MiniServer.Text.Decimal
import MiniServer.Text.Lines

/-!
# The header lines of a response

Every response starts with a header block.  `SaysClose` reads the line `Connection: close` in it, as
a client would; `Site.saysClose_reply_iff` says that the responses of the server have that line
exactly when the connection is to be closed after them.
-/

namespace MiniServer

open Text (HeaderBlock IsLine blockText)

/-- The response has the header line `Connection: close`. -/
def SaysClose (response : Bytes) : Prop :=
  ∃ lines body, HeaderBlock 13 10 response lines body ∧ Bytes.ofString "Connection: close" ∈ lines

theorem saysClose_iff {lines : List Bytes} {response body : Bytes}
    (h : HeaderBlock 13 10 response lines body) :
    SaysClose response ↔ Bytes.ofString "Connection: close" ∈ lines := by
  constructor
  · rintro ⟨lines', body', h', hmem⟩
    rwa [(h.unique (by decide) h').1]
  · exact fun hmem => ⟨lines, body, h, hmem⟩

namespace HttpResponse

/-! ### Bytes that are not a carriage return -/

theorem cr_not_mem_ofNat (n : ℕ) : 13 ∉ Bytes.ofNat n :=
  (Bytes.Decimal.ofNat n).not_mem (by decide)

theorem cr_not_mem_ofInt (n : ℤ) : 13 ∉ Bytes.ofInt n := by
  cases n with
  | ofNat n => exact cr_not_mem_ofNat n
  | negSucc n =>
    unfold Bytes.ofInt
    rw [List.mem_cons, not_or]
    exact ⟨by decide, cr_not_mem_ofNat (n + 1)⟩

/-- A default and the values of a table have a property in common. -/
theorem lookup_getD {α : Type} [BEq α] {P : Bytes → Prop} (table : List (α × Bytes)) {d : Bytes}
    (hd : P d) (h : ∀ p ∈ table, P p.2) (k : α) : P ((table.lookup k).getD d) := by
  induction table with
  | nil => exact hd
  | cons p table ih =>
    rw [List.lookup_cons]
    cases k == p.1 with
    | true => exact h p List.mem_cons_self
    | false => exact ih fun q hq => h q (List.mem_cons_of_mem p hq)

theorem cr_not_mem_getMimeType (path : Bytes) : 13 ∉ getMimeType path := by
  unfold getMimeType
  split_ifs with hdot
  · exact lookup_getD (P := fun b => 13 ∉ b) mimeMap (by decide) (by decide) _
  · decide

/-! ### The lines -/

/-- The status line, without its end. -/
def statusText (code : ℤ) : Bytes :=
  .ofString "HTTP/1.1 " ++ Bytes.ofInt code ++ .ofString " " ++
    (statusMap.lookup code).getD (.ofString "Unknown")

/-- A header line, without its end. -/
def headerText (name : String) (value : Bytes) : Bytes :=
  .ofString name ++ .ofString ": " ++ value

/-- The lines that every built response starts with. -/
def responseLines (code : ℤ) (contentType : Bytes) (contentLength : ℕ) (isKeepAlive : Bool) :
    List Bytes :=
  [statusText code,
   headerText "Server" (.ofString "MiniServer/1.0"),
   headerText "Content-Type" contentType,
   headerText "Content-Length" (Bytes.ofNat contentLength),
   headerText "Connection" (connectionValue isKeepAlive)]

/-- The line that static files have in addition. -/
def rangesLine : Bytes := headerText "Accept-Ranges" (.ofString "bytes")

theorem buildText_eq (code : ℤ) (body : Bytes) (isKeepAlive : Bool) (contentType : Bytes) :
    buildText code body isKeepAlive contentType =
      blockText 13 10 (responseLines code contentType body.length isKeepAlive) ++ body := by
  simp [buildText, responseLines, blockText, headerLine, headerText, getStatusLine, statusText,
    Bytes.crlf]

theorem buildHeader_eq (code : ℤ) (contentType : Bytes) (n : ℕ) (isKeepAlive : Bool) :
    buildHeader code contentType n isKeepAlive =
      blockText 13 10 (responseLines code contentType n isKeepAlive ++ [rangesLine]) := by
  simp [buildHeader, responseLines, rangesLine, blockText, headerLine, headerText, getStatusLine,
    statusText, Bytes.crlf]

theorem isLine_responseLines (code : ℤ) {contentType : Bytes} (hct : 13 ∉ contentType) (n : ℕ)
    (isKeepAlive : Bool) :
    ∀ l ∈ responseLines code contentType n isKeepAlive, l ≠ [] ∧ IsLine 13 10 l := by
  have hstatus : 13 ∉ (statusMap.lookup code).getD (.ofString "Unknown") :=
    lookup_getD (P := fun b => 13 ∉ b) statusMap (by decide) (by decide) _
  have hvalue : 13 ∉ connectionValue isKeepAlive := by cases isKeepAlive <;> decide
  have happend : ∀ {a b : Bytes}, 13 ∉ a → 13 ∉ b → 13 ∉ a ++ b := by
    intro a b ha hb hmem
    exact (List.mem_append.1 hmem).elim ha hb
  intro l hl
  simp only [responseLines, List.mem_cons, List.not_mem_nil, or_false] at hl
  rcases hl with rfl | rfl | rfl | rfl | rfl
  · refine ⟨by simp [statusText, Bytes.ofString], Text.isLine_of_not_mem ?_⟩
    exact happend (happend (happend (by decide) (cr_not_mem_ofInt code)) (by decide)) hstatus
  · exact ⟨by decide, Text.isLine_of_not_mem (by decide)⟩
  · exact ⟨by simp [headerText, Bytes.ofString],
      Text.isLine_of_not_mem (happend (by decide) hct)⟩
  · exact ⟨by simp [headerText, Bytes.ofString],
      Text.isLine_of_not_mem (happend (by decide) (cr_not_mem_ofNat n))⟩
  · exact ⟨by simp [headerText, Bytes.ofString],
      Text.isLine_of_not_mem (happend (by decide) hvalue)⟩

/-- The `Connection` line is the only one that can say `close`. -/
theorem close_mem_responseLines (code : ℤ) (contentType : Bytes) (n : ℕ) (isKeepAlive : Bool)
    {extra : List Bytes} (hextra : Bytes.ofString "Connection: close" ∉ extra) :
    Bytes.ofString "Connection: close" ∈ responseLines code contentType n isKeepAlive ++ extra ↔
      isKeepAlive = false := by
  have hne : ∀ {l : Bytes}, l.take 4 ≠ Bytes.ofString "Conn" →
      Bytes.ofString "Connection: close" ≠ l := by
    rintro l h rfl
    exact h (by decide)
  have hstatus : Bytes.ofString "Connection: close" ≠ statusText code :=
    hne (show Bytes.ofString "HTTP" ≠ .ofString "Conn" by decide)
  have htype : Bytes.ofString "Connection: close" ≠ headerText "Content-Type" contentType :=
    hne (show Bytes.ofString "Cont" ≠ .ofString "Conn" by decide)
  have hlength : Bytes.ofString "Connection: close" ≠
      headerText "Content-Length" (Bytes.ofNat n) :=
    hne (show Bytes.ofString "Cont" ≠ .ofString "Conn" by decide)
  have hserver : Bytes.ofString "Connection: close" ≠
      headerText "Server" (.ofString "MiniServer/1.0") := by decide
  simp only [responseLines, List.mem_append, List.mem_cons, hstatus, htype, hlength, hserver,
    hextra, List.not_mem_nil, or_false, false_or]
  cases isKeepAlive <;> decide

/-- The lines behind those of every response: none of them says `close`. -/
structure Extra (extra : List Bytes) : Prop where
  isLine : ∀ l ∈ extra, l ≠ [] ∧ IsLine 13 10 l
  notClose : Bytes.ofString "Connection: close" ∉ extra

theorem Extra.nil : Extra [] where
  isLine _ hl := absurd hl List.not_mem_nil
  notClose := List.not_mem_nil

theorem Extra.rangesLine : Extra [rangesLine] where
  isLine := by decide
  notClose := by decide

theorem headerBlock_responseLines (code : ℤ) {contentType : Bytes} (hct : 13 ∉ contentType) (n : ℕ)
    (isKeepAlive : Bool) {extra : List Bytes} (hextra : Extra extra) (body : Bytes) :
    HeaderBlock 13 10
      (blockText 13 10 (responseLines code contentType n isKeepAlive ++ extra) ++ body)
      (responseLines code contentType n isKeepAlive ++ extra) body := by
  refine .of_lines (fun l hl => ?_) body
  exact (List.mem_append.1 hl).elim (isLine_responseLines code hct n isKeepAlive l)
    (hextra.isLine l)

end HttpResponse

/-! ### Answers -/

/-- The lines of the fixed text. -/
def badRequestLines : List Bytes :=
  [.ofString "HTTP/1.1 400 Bad Request", .ofString "Content-Type: text/plain; charset=utf-8",
   .ofString "Content-Length: 11", .ofString "Connection: close"]

theorem headerBlock_badRequest :
    HeaderBlock 13 10 badRequest badRequestLines (Bytes.ofString "Bad Request") := by
  have hlines : ∀ l ∈ badRequestLines, l ≠ [] ∧ IsLine 13 10 l := by decide
  exact HeaderBlock.of_lines hlines (Bytes.ofString "Bad Request")

theorem saysClose_badRequest : SaysClose badRequest :=
  ⟨badRequestLines, Bytes.ofString "Bad Request", headerBlock_badRequest, by decide⟩

theorem RequestRouter.contentType_route (users : UserService Id) (request : HttpRequest) :
    (Id.run (RequestRouter.route users request)).contentType = RequestRouter.jsonType := by
  unfold RequestRouter.route
  dsimp only
  generalize RequestRouter.formValue request.body (.ofString "username") = username
  generalize RequestRouter.formValue request.body (.ofString "password") = password
  split_ifs
  · rfl
  · rfl
  · cases users.registerUser username password <;> rfl
  · cases users.loginUser username password <;> rfl

theorem HttpResponse.cr_not_mem_prepareBody (openFile : OpenFile Id) (path htmlRoot : Bytes) :
    13 ∉ (Id.run (HttpResponse.prepareBody openFile path htmlRoot)).2 := by
  have hhtml : 13 ∉ HttpResponse.htmlType := by decide
  unfold HttpResponse.prepareBody MappedFile.open
  dsimp only
  generalize (if HttpResponse.isIndex path = true then htmlRoot ++ .ofString "/index.html"
    else htmlRoot ++ path) = filepath
  split_ifs
  · exact hhtml
  · cases openFile filepath.cstr with
    | some file => exact HttpResponse.cr_not_mem_getMimeType filepath
    | none => exact hhtml
  · cases openFile filepath.cstr with
    | some file => exact HttpResponse.cr_not_mem_getMimeType filepath
    | none => exact hhtml

namespace Site

variable (site : Site Id)

/-- A static answer is the prepared response. -/
theorem bytes_answerRequest {request : HttpRequest}
    (h : RequestRouter.handles request = false) :
    (Id.run (site.answerRequest request)).bytes = (Id.run (HttpResponse.prepare site.openFile
      request.path request.keepAlive site.htmlRoot)).bytes := by
  unfold answerRequest PreparedResponse.bytes PreparedResponse.content
  rw [h]
  generalize hp : HttpResponse.prepare site.openFile request.path request.keepAlive
    site.htmlRoot = prepared
  obtain ⟨code, header, body, file⟩ : PreparedResponse := prepared
  cases file <;> rfl

/-- The answer to a parsed request is made of header lines and a body. -/
theorem exists_lines_answerRequest (request : HttpRequest) :
    ∃ code contentType extra body, 13 ∉ contentType ∧ HttpResponse.Extra extra ∧
      (Id.run (site.answerRequest request)).bytes =
        blockText 13 10 (HttpResponse.responseLines code contentType body.length
          request.keepAlive ++ extra) ++ body := by
  cases hroute : RequestRouter.handles request with
  | true =>
    have hct : 13 ∉ (Id.run (RequestRouter.route site.users request)).contentType := by
      rw [RequestRouter.contentType_route]
      decide
    refine ⟨(Id.run (RequestRouter.route site.users request)).statusCode, _, [],
      (Id.run (RequestRouter.route site.users request)).body, hct, .nil, ?_⟩
    rw [List.append_nil, ← HttpResponse.buildText_eq, answerRequest, hroute]
    rfl
  | false =>
    have hct := HttpResponse.cr_not_mem_prepareBody site.openFile request.path site.htmlRoot
    let prepared := Id.run (HttpResponse.prepare site.openFile request.path request.keepAlive
      site.htmlRoot)
    refine ⟨prepared.statusCode, _, _, prepared.content, hct, .rangesLine, ?_⟩
    rw [site.bytes_answerRequest hroute, ← HttpResponse.buildHeader_eq,
      PreparedResponse.length_content]
    rfl

theorem closeAfterWrite_answerRequest (request : HttpRequest) :
    (Id.run (site.answerRequest request)).closeAfterWrite = !request.keepAlive := by
  unfold answerRequest
  split_ifs <;> rfl

theorem saysClose_replyRequest (request : HttpRequest) :
    SaysClose (Id.run (site.answerRequest request)).bytes ↔
      (Id.run (site.answerRequest request)).closeAfterWrite = true := by
  obtain ⟨code, contentType, extra, body, hct, hextra, hbytes⟩ :=
    site.exists_lines_answerRequest request
  rw [closeAfterWrite_answerRequest, hbytes,
    saysClose_iff (HttpResponse.headerBlock_responseLines code hct _ _ hextra body),
    HttpResponse.close_mem_responseLines _ _ _ _ hextra.notClose, Bool.not_eq_true']

/-- **A response says `Connection: close` exactly when the connection is closed after it.** -/
theorem saysClose_reply_iff (raw : Bytes) :
    SaysClose (site.reply raw).bytes ↔ (site.reply raw).closeAfterWrite = true := by
  unfold reply answer
  split
  · exact iff_of_true saysClose_badRequest rfl
  · exact site.saysClose_replyRequest _

/-- No response is empty. -/
theorem reply_bytes_ne_nil (raw : Bytes) : (site.reply raw).bytes ≠ [] := by
  unfold reply answer
  split
  · decide
  · rename_i request _
    obtain ⟨_, _, _, _, -, -, hbytes⟩ := site.exists_lines_answerRequest request
    show (Id.run (site.answerRequest request)).bytes ≠ []
    rw [hbytes]
    simp [blockText]

end Site

end MiniServer
