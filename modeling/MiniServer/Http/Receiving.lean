import MiniServer.Http.HeaderLines

/-!
# A client that receives responses

`Client.receive` takes one response off the front of a stream, as `recv_response` of the stress test
does: the header block up to the first `CRLF CRLF`, and as many bytes as the first line named
`Content-Length` says.  `Client.receiveAll_responses` says that a stream of responses is cut where
the server ended each of them.
-/

namespace MiniServer

open Text (HeaderBlock IsLine blockText splitLines)

namespace Client

/-! ### Receiving -/

/-- A line named `Content-Length`. -/
def isLengthLine (line : Bytes) : Bool :=
  Connection.contentLengthKey.isPrefixOf (line.map Bytes.toLower)

/-- `int` of a decimal numeral, `none` for the exception. -/
def int (s : Bytes) : Option ℕ :=
  if s ≠ [] ∧ s.all Bytes.isDigit then some (Bytes.value s) else none

/-- The length that a header block announces. -/
def contentLength (headers : Bytes) : Option ℕ :=
  match (splitLines 13 10 headers).find? isLengthLine with
  | none => some 0
  | some line => int (HttpRequest.trim ((line.dropWhile (· ≠ 58)).drop 1))

/-- `recv_response`: the header block, the body and the rest of the stream. -/
def receive (data : Bytes) : Option ((Bytes × Bytes) × Bytes) := do
  let headerEnd ← (Text.find (Bytes.crlf ++ Bytes.crlf) data).map (· + 4)
  let headers := data.take headerEnd
  let body := data.drop headerEnd
  let n ← contentLength headers
  if body.length < n then none else some ((headers, body.take n), body.drop n)

/-- Up to `n` responses, and the rest of the stream. -/
def receiveAll : ℕ → Bytes → List (Bytes × Bytes) × Bytes
  | 0, data => ([], data)
  | n + 1, data =>
    match receive data with
    | none => ([], data)
    | some (response, rest) =>
      (response :: (receiveAll n rest).1, (receiveAll n rest).2)

/-! ### One response -/

theorem int_decimal {digits : Bytes} {n : ℕ} (h : Bytes.Decimal digits n) :
    int digits = some n := by
  rw [int, if_pos ⟨h.nonempty, List.all_eq_true.2 h.digit⟩, h.value_eq]

/-- The number in a `Content-Length` line of the server. -/
theorem trim_lengthLine (n : ℕ) :
    HttpRequest.trim (((HttpResponse.headerText "Content-Length" (Bytes.ofNat n)).dropWhile
      (· ≠ 58)).drop 1) = Bytes.ofNat n := by
  have hdecimal := Bytes.Decimal.ofNat n
  have hspace : ∀ b ∈ Bytes.ofNat n, Bytes.isSpace b = false := by
    intro b hb
    have hdigit := hdecimal.digit b hb
    simp only [Bytes.isDigit, Bytes.isSpace, decide_eq_true_eq, decide_eq_false_iff_not] at hdigit ⊢
    rintro (rfl | ⟨-, hle⟩)
    · exact absurd hdigit.1 (by decide)
    · exact absurd (UInt8.le_trans hdigit.1 hle) (by decide)
  have hkeep : ∀ s : Bytes, s ≠ [] → (∀ b ∈ s, Bytes.isSpace b = false) →
      s.dropWhile Bytes.isSpace = s := by
    intro s hs h
    cases s with
    | nil => exact absurd rfl hs
    | cons b s => rw [List.dropWhile_cons, if_neg (by simp [h b List.mem_cons_self])]
  have hvalue : ((HttpResponse.headerText "Content-Length" (Bytes.ofNat n)).dropWhile
      (· ≠ 58)).drop 1 = 32 :: Bytes.ofNat n := rfl
  rw [hvalue, HttpRequest.trim, List.dropWhile_cons, if_pos (by decide),
    hkeep _ hdecimal.nonempty hspace, hkeep _ (by simpa using hdecimal.nonempty),
    List.reverse_reverse]
  simpa using hspace

/-- A response with a `Content-Length` line that says how long its body is. -/
theorem receive_block {lines before after : List Bytes} {line body : Bytes}
    (hlines : ∀ l ∈ lines, l ≠ [] ∧ IsLine 13 10 l) (heq : lines = before ++ line :: after)
    (hbefore : ∀ l ∈ before, isLengthLine l = false) (hline : isLengthLine line = true)
    (hvalue : int (HttpRequest.trim ((line.dropWhile (· ≠ 58)).drop 1)) = some body.length)
    (t : Bytes) :
    receive (blockText 13 10 lines ++ body ++ t) = some ((blockText 13 10 lines, body), t) := by
  have hblock := HeaderBlock.of_lines hlines (body ++ t)
  have hne : lines ≠ [] := by simp [heq]
  obtain ⟨i, hfind, hi⟩ := hblock.find_blank (by decide) hne
  have hcontent : contentLength (blockText 13 10 lines) = some body.length := by
    have hfirst : (lines ++ [[], []]).find? isLengthLine = some line := by
      rw [heq, List.append_assoc, List.find?_append,
        List.find?_eq_none.2 fun l hl => by simp [hbefore l hl]]
      simp [hline]
    rw [contentLength, Text.splitLines_blockText (by decide) fun l hl => (hlines l hl).2, hfirst]
    exact hvalue
  unfold receive
  rw [List.append_assoc, show Bytes.crlf ++ Bytes.crlf = [13, 10, 13, 10] from rfl, hfind]
  simp [hi, hcontent]

end Client

/-! ### The responses of the server -/

/-- A response, by the function that makes it. -/
inductive Response where
  /-- `buildText`. -/
  | text (statusCode : ℤ) (body : Bytes) (isKeepAlive : Bool)
    (contentType : {b : Bytes // 13 ∉ b ∧ 10 ∉ b})
  /-- `prepare`, the header and what follows it. -/
  | prepared (openFile : OpenFile Id) (path : Bytes) (isKeepAlive : Bool) (htmlRoot : Bytes)
  /-- `build` by an object that may have served other calls. -/
  | built (r : HttpResponse) (openFile : OpenFile Id) (path : Bytes) (isKeepAlive : Bool)
    (htmlRoot : Bytes)
  /-- The text for a request that does not parse. -/
  | badRequest

namespace Response

/-- The bytes that are sent. -/
def bytes : Response → Bytes
  | text code body isKeepAlive contentType =>
    HttpResponse.buildText code body isKeepAlive contentType
  | prepared openFile path isKeepAlive htmlRoot =>
    (Id.run (HttpResponse.prepare openFile path isKeepAlive htmlRoot)).bytes
  | built r openFile path isKeepAlive htmlRoot =>
    (Id.run (HttpResponse.build openFile r path isKeepAlive htmlRoot)).1
  | badRequest => MiniServer.badRequest

/-- The body of the response. -/
def body : Response → Bytes
  | text _ body _ _ => body
  | prepared openFile path isKeepAlive htmlRoot =>
    (Id.run (HttpResponse.prepare openFile path isKeepAlive htmlRoot)).content
  | built r openFile path isKeepAlive htmlRoot =>
    (Id.run (HttpResponse.build openFile r path isKeepAlive htmlRoot)).2.body
  | badRequest => .ofString "Bad Request"

/-- The bytes in front of the body. -/
def block (r : Response) : Bytes := r.bytes.take (r.bytes.length - r.body.length)

/-- The bytes `r` are header lines and `body`, whose length the first line named `Content-Length`
announces. -/
def Delimited (r body : Bytes) : Prop :=
  ∃ lines before after line, r = blockText 13 10 lines ++ body ∧
    (∀ l ∈ lines, l ≠ [] ∧ IsLine 13 10 l) ∧ lines = before ++ line :: after ∧
    (∀ l ∈ before, Client.isLengthLine l = false) ∧ Client.isLengthLine line = true ∧
    Client.int (HttpRequest.trim ((line.dropWhile (· ≠ 58)).drop 1)) = some body.length

theorem delimited_responseLines (code : ℤ) {contentType : Bytes} (hct : 13 ∉ contentType)
    (isKeepAlive : Bool) {extra : List Bytes} (hextra : HttpResponse.Extra extra) (body : Bytes) :
    Delimited (blockText 13 10
      (HttpResponse.responseLines code contentType body.length isKeepAlive ++ extra) ++ body)
      body := by
  have hblock := HttpResponse.headerBlock_responseLines code hct body.length isKeepAlive hextra body
  refine ⟨_, [HttpResponse.statusText code,
      HttpResponse.headerText "Server" (.ofString "MiniServer/1.0"),
      HttpResponse.headerText "Content-Type" contentType],
    HttpResponse.headerText "Connection" (HttpResponse.connectionValue isKeepAlive) :: extra,
    HttpResponse.headerText "Content-Length" (Bytes.ofNat body.length), rfl, hblock.isLine,
    rfl, ?_, ?_, ?_⟩
  · -- the three names differ from the key in their first bytes
    simp only [List.mem_cons, List.not_mem_nil, or_false, forall_eq_or_imp, forall_eq]
    exact ⟨rfl, rfl, rfl⟩
  · rfl
  · rw [Client.trim_lengthLine]
    exact Client.int_decimal (.ofNat _)

theorem delimited_badRequest : Delimited MiniServer.badRequest (.ofString "Bad Request") := by
  refine ⟨badRequestLines, badRequestLines.take 2, badRequestLines.drop 3,
    .ofString "Content-Length: 11", headerBlock_badRequest.eq_append,
    headerBlock_badRequest.isLine, ?_⟩
  decide +kernel

theorem built_eq_prepared (r : HttpResponse) (openFile : OpenFile Id) (path : Bytes)
    (isKeepAlive : Bool) (htmlRoot : Bytes) :
    (built r openFile path isKeepAlive htmlRoot).bytes =
        (prepared openFile path isKeepAlive htmlRoot).bytes ∧
      (built r openFile path isKeepAlive htmlRoot).body =
        (prepared openFile path isKeepAlive htmlRoot).body := by
  show (Id.run (HttpResponse.build openFile r path isKeepAlive htmlRoot)).1 = _ ∧
    (Id.run (HttpResponse.build openFile r path isKeepAlive htmlRoot)).2.body = _
  rw [HttpResponse.build_eq_prepare]
  exact ⟨rfl, rfl⟩

theorem delimited (r : Response) : Delimited r.bytes r.body := by
  have hprepared : ∀ openFile path isKeepAlive htmlRoot,
      Delimited (prepared openFile path isKeepAlive htmlRoot).bytes
        (prepared openFile path isKeepAlive htmlRoot).body := by
    intro openFile path isKeepAlive htmlRoot
    have hct := HttpResponse.cr_not_mem_prepareBody openFile path htmlRoot
    have hlength := PreparedResponse.length_content
      (Id.run (HttpResponse.prepare openFile path isKeepAlive htmlRoot))
    have hblock := delimited_responseLines
      (Id.run (HttpResponse.prepare openFile path isKeepAlive htmlRoot)).statusCode hct isKeepAlive
      .rangesLine (Id.run (HttpResponse.prepare openFile path isKeepAlive htmlRoot)).content
    rw [hlength, ← HttpResponse.buildHeader_eq] at hblock
    exact hblock
  cases r with
  | text code body isKeepAlive contentType =>
    have hblock := delimited_responseLines code contentType.2.1 isKeepAlive .nil body
    rw [List.append_nil, ← HttpResponse.buildText_eq] at hblock
    exact hblock
  | prepared openFile path isKeepAlive htmlRoot => exact hprepared _ _ _ _
  | built r openFile path isKeepAlive htmlRoot =>
    obtain ⟨hbytes, hbody⟩ := built_eq_prepared r openFile path isKeepAlive htmlRoot
    rw [hbytes, hbody]
    exact hprepared _ _ _ _
  | badRequest => exact delimited_badRequest

theorem receive_bytes (r : Response) (t : Bytes) :
    r.block ++ r.body = r.bytes ∧ Client.receive (r.bytes ++ t) = some ((r.block, r.body), t) := by
  obtain ⟨lines, before, after, line, hbytes, hlines, heq, hbefore, hline, hvalue⟩ :=
    r.delimited
  have hblock : r.block = blockText 13 10 lines := by
    unfold block
    rw [hbytes, List.length_append, Nat.add_sub_cancel, List.take_left]
  rw [hblock, hbytes]
  exact ⟨rfl, Client.receive_block hlines heq hbefore hline hvalue t⟩

end Response

/-- What is queued for a request is a response, and the access log has its length. -/
theorem Site.exists_response (site : Site Id) (raw : Bytes) :
    ∃ r : Response, (site.reply raw).bytes = r.bytes ∧
      (site.reply raw).bytesSent = r.bytes.length := by
  unfold reply answer
  split
  · exact ⟨.badRequest, rfl, rfl⟩
  · rename_i request _
    cases hroute : RequestRouter.handles request with
    | true =>
      have hct : 13 ∉ RequestRouter.jsonType ∧ 10 ∉ RequestRouter.jsonType := by decide
      rw [← RequestRouter.contentType_route site.users request] at hct
      unfold answerRequest
      rw [hroute]
      exact ⟨.text _ _ request.keepAlive ⟨_, hct⟩, rfl, rfl⟩
    | false =>
      refine ⟨.prepared site.openFile request.path request.keepAlive site.htmlRoot,
        site.bytes_answerRequest hroute, ?_⟩
      show _ = (PreparedResponse.bytes _).length
      rw [PreparedResponse.bytes, List.length_append, PreparedResponse.length_content,
        answerRequest, hroute]
      rfl

/-- **Responses are self-delimiting.**  A client that cuts every response at its blank line and
its `Content-Length` gets the header block and the body of every response in order, whatever the
bodies contain, and no byte is left.  Every answer of the server is such a response, and the access
log gets its length. -/
theorem Client.receiveAll_responses (rs : List Response) :
    (∀ n, receiveAll (rs.length + n) (rs.map Response.bytes).flatten =
      (rs.map fun r => (r.block, r.body), [])) ∧
    (∀ r : Response, r.block ++ r.body = r.bytes) ∧
    ∀ (site : Site Id) (raw : Bytes), ∃ r : Response, (site.reply raw).bytes = r.bytes ∧
      (site.reply raw).bytesSent = r.bytes.length := by
  refine ⟨fun n => ?_, fun r => (r.receive_bytes []).1, Site.exists_response⟩
  induction rs with
  | nil =>
    cases n with
    | zero => rfl
    | succ n => rfl
  | cons r rs ih =>
    rw [List.map_cons, List.flatten_cons, List.length_cons, Nat.add_right_comm,
      receiveAll, (r.receive_bytes _).2]
    simp only [ih]
    rfl

end MiniServer
