import MiniServer.Text.Bytes
import MiniServer.Text.Lines

/-!
# HTTP requests

`HttpRequest` is the parser object: `parse` drives it line by line from `requestLine` through
`headers` to `body` or `finish`.  A member function that the source lets change the object and
answer `bool` returns both.

The messages that the parser prints are left out.
-/

namespace MiniServer

/-- `enum class ParseState`. -/
inductive ParseState where
  | requestLine
  | headers
  | body
  | finish
  deriving DecidableEq, Repr

/-- `enum class HttpMethod`. -/
inductive HttpMethod where
  | get
  | post
  | put
  | delete
  | badMethod
  deriving DecidableEq, Repr

/-- `class HttpRequest`; the header table is an association list with the latest entry first. -/
structure HttpRequest where
  state : ParseState := .requestLine
  method : HttpMethod := .badMethod
  path : Bytes := []
  version : Bytes := []
  body : Bytes := []
  keepAlive : Bool := false
  headers : List (Bytes × Bytes) := []
  deriving DecidableEq, Repr

namespace HttpRequest

/-! ### Bytes and numbers -/

/-- The class `[A-Z]`. -/
def isUpper (b : UInt8) : Bool := decide (65 ≤ b ∧ b ≤ 90)

/-- The class `[0-9.]`. -/
def isVersionByte (b : UInt8) : Bool := Bytes.isDigit b || b = 46

/-- The value of a hexadecimal digit. -/
def hexDigit (b : UInt8) : Option ℕ :=
  if 48 ≤ b ∧ b ≤ 57 then some (b.toNat - 48)
  else if 97 ≤ b ∧ b ≤ 102 then some (b.toNat - 87)
  else if 65 ≤ b ∧ b ≤ 70 then some (b.toNat - 55)
  else none

/-- The number a run of hexadecimal digits denotes; it ends at the first other byte. -/
def hexValue : ℕ → Bytes → ℕ
  | n, [] => n
  | n, b :: s =>
    match hexDigit b with
    | none => n
    | some d => hexValue (16 * n + d) s

/-- The sign `strtol` accepts in front of a number: whether it is `-`, and what follows. -/
def stripSign : Bytes → Bool × Bytes
  | [] => (false, [])
  | b :: s => if b = 45 then (true, s) else if b = 43 then (false, s) else (false, b :: s)

/-- The prefix `0x` or `0X`, which counts only in front of a hexadecimal digit. -/
def stripHexPrefix : Bytes → Bytes
  | z :: x :: d :: s =>
    if z = 48 ∧ (x = 120 ∨ x = 88) ∧ (hexDigit d).isSome then d :: s else z :: x :: d :: s
  | s => s

/-- `strtol(s, nullptr, 16)` of a C string whose number fits a `long`. -/
def strtol16 (s : Bytes) : ℤ :=
  let (negative, digits) := stripSign ((Bytes.cstr s).dropWhile Bytes.isSpace)
  let n := hexValue 0 (stripHexPrefix digits)
  if negative then -n else n

/-- A byte of a URL outside an escape. -/
def plainByte (b : UInt8) : UInt8 := if b = 43 then 32 else b

/-- `HttpRequest::urlDecode`.  A `%` with fewer than two bytes behind it stands for itself; the
conversion to `char` keeps the low byte of the number. -/
def urlDecode : Bytes → Bytes
  | b :: h :: l :: s =>
    if b = 37 then UInt8.ofInt (strtol16 [h, l]) :: urlDecode s
    else plainByte b :: urlDecode (h :: l :: s)
  | b :: s => plainByte b :: urlDecode s
  | [] => []

/-- `HttpRequest::trim`. -/
def trim (value : Bytes) : Bytes :=
  ((value.dropWhile Bytes.isSpace).reverse.dropWhile Bytes.isSpace).reverse

/-- `HttpRequest::normalizeHeaderKey`. -/
def normalizeHeaderKey (key : Bytes) : Bytes := key.map Bytes.toLower

/-! ### Lines -/

/-- `std::regex_match` with `^([A-Z]+) ([^ ]+) HTTP/([0-9.]+)\r?$`, with the three groups.  The
symbol behind each group is not in the class of the group, so the longest run is the only
candidate for it.  The stack that a library needs for a long line is not modelled. -/
def matchRequestLine (line : Bytes) : Option (Bytes × Bytes × Bytes) :=
  let (method, rest) := line.span isUpper
  match rest with
  | [] => none
  | sp :: rest =>
    let (target, rest) := rest.span (· ≠ 32)
    let (version, final) := (rest.drop 6).span isVersionByte
    if method ≠ [] ∧ sp = 32 ∧ target ≠ [] ∧ rest.take 6 = Bytes.ofString " HTTP/" ∧ version ≠ [] ∧
        (final = [] ∨ final = [13]) then
      some (method, target, version)
    else none

/-- The method a request line names, `none` for an unsupported one. -/
def methodOf (name : Bytes) : Option HttpMethod :=
  if name = .ofString "GET" then some .get
  else if name = .ofString "POST" then some .post
  else if name = .ofString "PUT" then some .put
  else if name = .ofString "DELETE" then some .delete
  else none

/-- `HttpRequest::parseRequestLine`. -/
def parseRequestLine (r : HttpRequest) (line : Bytes) : Bool × HttpRequest :=
  match matchRequestLine line with
  | none => (false, r)
  | some (methodStr, target, version) =>
    match methodOf methodStr with
    | none => (false, { r with method := .badMethod })
    | some method =>
      let version := .ofString "HTTP/" ++ version
      (true, { r with
        method, path := urlDecode target, version
        keepAlive := version = .ofString "HTTP/1.1" })

/-- The flag after a header `key: value`. -/
def connectionFlag (keepAlive : Bool) (key value : Bytes) : Bool :=
  if key = .ofString "connection" then
    if normalizeHeaderKey value = .ofString "close" then false
    else if normalizeHeaderKey value = .ofString "keep-alive" then true
    else keepAlive
  else keepAlive

/-- The name and the value of a header line, split at the first colon. -/
def splitHeader (line : Bytes) : Option (Bytes × Bytes) :=
  (Text.find [58] line).map fun colon =>
    (normalizeHeaderKey (trim (line.take colon)), trim (line.drop (colon + 1)))

/-- `HttpRequest::parseHeader`. -/
def parseHeader (r : HttpRequest) (line : Bytes) : Bool × HttpRequest :=
  match splitHeader line with
  | none => (false, r)
  | some (key, value) =>
    (true, { r with
      headers := (key, value) :: r.headers
      keepAlive := connectionFlag r.keepAlive key value })

/-- `HttpRequest::parseBody`, given the data from the start of the body on. -/
def parseBody (r : HttpRequest) (rest : Bytes) : HttpRequest :=
  if rest ≠ [] then { r with body := rest } else r

/-! ### The state machine -/

/-- The loop of `parse` on the data that is left.  Every round takes an end of line off it, so
as many rounds as there are bytes are enough. -/
def parseLoop : ℕ → HttpRequest → Bytes → Bool × HttpRequest
  | 0, r, _ => (r.state = .finish, r)
  | n + 1, r, data =>
    match Text.cutLine 13 10 data with
    -- the data is incomplete
    | none => (r.state = .finish, r)
    | some (line, rest) =>
      match r.state with
      | .requestLine =>
        match r.parseRequestLine line with
        | (false, r) => (false, r)
        | (true, r) => parseLoop n { r with state := .headers } rest
      | .headers =>
        if line = [] then
          if r.method = .get then (true, { r with state := .finish })
          else (true, parseBody { r with state := .body } rest)
        else
          match r.parseHeader line with
          | (false, r) => (false, r)
          | (true, r) => parseLoop n r rest
      | .body => parseLoop n r rest
      | .finish => (true, r)

/-- `HttpRequest::parse`. -/
def parse (r : HttpRequest) (data : Bytes) : Bool × HttpRequest :=
  if data = [] then (false, r) else parseLoop data.length r data

/-! ### Results -/

/-- `HttpRequest::getHeader`. -/
def getHeader (r : HttpRequest) (key : Bytes) : Bytes :=
  (r.headers.lookup (normalizeHeaderKey key)).getD []

/-- `HttpRequest::getMethodName`. -/
def getMethodName (r : HttpRequest) : Bytes :=
  match r.method with
  | .get => .ofString "GET"
  | .post => .ofString "POST"
  | .put => .ofString "PUT"
  | .delete => .ofString "DELETE"
  | .badMethod => .ofString "UNKNOWN"

/-! ### What an accepted text looks like -/

/-- The object after the header lines `hs`, each of which has a colon. -/
def addHeaders (r : HttpRequest) (hs : List (Bytes × Bytes)) : HttpRequest :=
  hs.foldl (fun r (key, value) => { r with
    headers := (key, value) :: r.headers
    keepAlive := connectionFlag r.keepAlive key value }) r

/-- The object after the blank line. -/
def finish (r : HttpRequest) (rest : Bytes) : HttpRequest :=
  if r.method = .get then { r with state := .finish } else parseBody { r with state := .body } rest

@[simp] theorem addHeaders_nil (r : HttpRequest) : r.addHeaders [] = r := rfl

theorem addHeaders_cons (r : HttpRequest) (key value : Bytes) (hs : List (Bytes × Bytes)) :
    r.addHeaders ((key, value) :: hs) = addHeaders { r with
      headers := (key, value) :: r.headers
      keepAlive := connectionFlag r.keepAlive key value } hs := rfl

/-- Header lines change nothing but the table and the flag. -/
theorem addHeaders_eq (r : HttpRequest) (hs : List (Bytes × Bytes)) :
    r.addHeaders hs =
      { r with headers := hs.reverse ++ r.headers, keepAlive := (r.addHeaders hs).keepAlive } := by
  induction hs generalizing r with
  | nil => rfl
  | cons h hs ih =>
    rw [addHeaders_cons, ih, List.reverse_cons, List.append_assoc]
    rfl

theorem addHeaders_headers (r : HttpRequest) (hs : List (Bytes × Bytes)) :
    (r.addHeaders hs).headers = hs.reverse ++ r.headers := by
  rw [addHeaders_eq]

@[simp] theorem finish_headers (r : HttpRequest) (rest : Bytes) :
    (r.finish rest).headers = r.headers := by
  unfold finish parseBody; split_ifs <;> rfl

theorem parseLoop_headers {n : ℕ} {r req : HttpRequest} {data : Bytes}
    (hstate : r.state = .headers) (h : parseLoop n r data = (true, req)) :
    ∃ lines hs rest, Text.HeaderBlock 13 10 data lines rest ∧ lines.map splitHeader = hs.map some ∧
      req = (r.addHeaders hs).finish rest := by
  induction n generalizing r data with
  | zero => simp [parseLoop, hstate] at h
  | succ n ih =>
    rw [parseLoop] at h
    cases hcut : Text.cutLine 13 10 data with
    | none => simp [hcut, hstate] at h
    | some p =>
      obtain ⟨line, rest⟩ := p
      obtain ⟨rfl, hline⟩ := (Text.cutLine_eq_some_iff (by decide)).1 hcut
      simp only [hcut, hstate] at h
      by_cases hempty : line = []
      · subst hempty
        refine ⟨[], [], rest, .blank rest, rfl, ?_⟩
        rw [addHeaders_nil, finish]
        by_cases hget : r.method = .get
        · simpa [hget, eq_comm] using h
        · simpa [hget, eq_comm] using h
      · rw [if_neg hempty, parseHeader] at h
        cases hsplit : splitHeader line with
        | none => simp [hsplit] at h
        | some kv =>
          simp only [hsplit] at h
          obtain ⟨lines, hs, rest', hblock, hmap, hreq⟩ := ih (by exact hstate) h
          exact ⟨line :: lines, kv :: hs, rest', .line hempty hline hblock,
            by simp [hsplit, hmap], hreq⟩

theorem parseRequestLine_state {r r' : HttpRequest} {line : Bytes}
    (h : r.parseRequestLine line = (true, r')) :
    r'.headers = r.headers ∧ ∃ target, r'.path = urlDecode target := by
  unfold parseRequestLine at h
  cases hmatch : matchRequestLine line with
  | none => simp [hmatch] at h
  | some p =>
    simp only [hmatch] at h
    cases hm : methodOf p.1 with
    | none => simp [hm] at h
    | some method =>
      simp only [hm, Prod.mk.injEq, true_and] at h
      subst h
      exact ⟨rfl, _, rfl⟩

/-- **An accepted text** is a request line, header lines with a colon and a blank line, and the
parsed request is what these lines make of the new object. -/
theorem parse_eq_true {data : Bytes} {req : HttpRequest}
    (h : ({} : HttpRequest).parse data = (true, req)) :
    ∃ line lines hs rest r, Text.HeaderBlock 13 10 data (line :: lines) rest ∧
      parseRequestLine {} line = (true, r) ∧ lines.map splitHeader = hs.map some ∧
      req = (addHeaders { r with state := .headers } hs).finish rest := by
  unfold parse at h
  split_ifs at h with hdata
  · simp at h
  rw [show data.length = data.length - 1 + 1 by
    have := List.length_pos_of_ne_nil hdata; omega, parseLoop] at h
  cases hcut : Text.cutLine 13 10 data with
  | none => simp [hcut] at h
  | some p =>
    obtain ⟨line, rest⟩ := p
    obtain ⟨rfl, hline⟩ := (Text.cutLine_eq_some_iff (by decide)).1 hcut
    simp only [hcut] at h
    split at h
    · simp at h
    · rename_i r hr
      obtain ⟨lines, hs, rest', hblock, hmap, hreq⟩ := parseLoop_headers rfl h
      refine ⟨line, lines, hs, rest', r, .line ?_ hline hblock, hr, hmap, hreq⟩
      rintro rfl
      simp [parseRequestLine, matchRequestLine, List.span, List.span.loop] at hr

end HttpRequest

end MiniServer
