import MiniServer.Http.Acceptance
import MiniServer.Http.HeaderAgreement

/-!
# The grammar of requests

`Message` is a request as it is written: the parts of its first line, its header lines, and the
bytes behind the blank line.  `HttpRequest.parse_grammar` says that a new `HttpRequest` accepts the
texts of messages and no others, and what it returns for each.
-/

namespace MiniServer

open Text (HeaderBlock IsLine blockText)

namespace HttpRequest

/-- The methods that the server knows. -/
def methodNames : List Bytes :=
  [.ofString "GET", .ofString "POST", .ofString "PUT", .ofString "DELETE"]

/-- A first line. -/
def lineText (name target version final : Bytes) : Bytes :=
  name ++ .ofString " " ++ target ++ .ofString " HTTP/" ++ version ++ final

/-- A request; `final` is the carriage return that the first line may have at its end. -/
structure Message where
  name : Bytes
  target : Bytes
  version : Bytes
  final : Bytes
  lines : List Bytes
  rest : Bytes
  name_mem : name ∈ methodNames
  target_ne : target ≠ []
  target_blank : 32 ∉ target
  version_ne : version ≠ []
  version_class : ∀ b ∈ version, 48 ≤ b ∧ b ≤ 57 ∨ b = 46
  final_eq : final = [] ∨ final = [13]
  isLine : IsLine 13 10 (lineText name target version final)
  header : ∀ l ∈ lines, l ≠ [] ∧ IsLine 13 10 l ∧ 58 ∈ l

/-- The name of a header line. -/
def fieldName (line : Bytes) : Bytes := normalizeHeaderKey (trim (line.takeWhile (· ≠ 58)))

/-- The value of a header line. -/
def fieldValue (line : Bytes) : Bytes := trim ((line.dropWhile (· ≠ 58)).tail)

/-- A header line that says what happens to the connection after the request. -/
def decides (line : Bytes) : Bool :=
  fieldName line = .ofString "connection" ∧
    (normalizeHeaderKey (fieldValue line) = .ofString "close" ∨
      normalizeHeaderKey (fieldValue line) = .ofString "keep-alive")

/-- What the last line that decides says, `default` if there is none. -/
def decision (lines : List Bytes) (default : Bool) : Bool :=
  match (lines.filter decides).getLast? with
  | some l => normalizeHeaderKey (fieldValue l) = .ofString "keep-alive"
  | none => default

namespace Message

/-- The first line. -/
def line (m : Message) : Bytes := lineText m.name m.target m.version m.final

/-- The text of a request. -/
def text (m : Message) : Bytes := blockText 13 10 (m.line :: m.lines) ++ m.rest

/-- The value of the last line with the name `key`. -/
def headerValue (m : Message) (key : Bytes) : Bytes :=
  ((m.lines.filter fun l => fieldName l = normalizeHeaderKey key).getLast?.map fieldValue).getD []

/-- The connection is kept: the default is that of the version. -/
def persistent (m : Message) : Bool := decision m.lines (m.version = .ofString "1.1")

end Message

/-! ### Header lines -/

/-- `parseHeader` cuts where the name ends. -/
theorem splitHeader_eq {line : Bytes} (h : 58 ∈ line) :
    splitHeader line = some (fieldName line, fieldValue line) := by
  obtain ⟨name, value, rfl, hname⟩ := List.eq_append_cons_of_mem h
  have hclass : ∀ b ∈ name, decide (b ≠ 58) = true := by
    intro b hb
    rw [decide_eq_true_eq]
    rintro rfl
    exact hname hb
  unfold splitHeader fieldName fieldValue
  rw [Text.find_singleton_append hname, List.takeWhile_append_of_pos hclass,
    List.dropWhile_append_of_pos hclass]
  simp

/-- The table that the lines of a block make. -/
theorem eq_map_of_splitHeader {lines : List Bytes} {hs : List (Bytes × Bytes)}
    (h : lines.map splitHeader = hs.map some) (hcolon : ∀ l ∈ lines, 58 ∈ l) :
    hs = lines.map fun l => (fieldName l, fieldValue l) := by
  have hlines : lines.map splitHeader =
      (lines.map fun l => (fieldName l, fieldValue l)).map some := by
    rw [List.map_map]
    exact List.map_congr_left fun l hl => splitHeader_eq (hcolon l hl)
  rw [hlines] at h
  exact (List.map_injective_iff.2 (fun _ _ => Option.some.inj) h).symm

theorem connectionFlag_eq (keepAlive : Bool) (l : Bytes) :
    connectionFlag keepAlive (fieldName l) (fieldValue l) =
      if decides l then decide (normalizeHeaderKey (fieldValue l) = .ofString "keep-alive")
      else keepAlive := by
  have hne : Bytes.ofString "close" ≠ .ofString "keep-alive" := by decide
  unfold connectionFlag decides
  by_cases hname : fieldName l = .ofString "connection"
  · by_cases hclose : normalizeHeaderKey (fieldValue l) = .ofString "close"
    · simp [hname, hclose, hne]
    · by_cases hkeep : normalizeHeaderKey (fieldValue l) = .ofString "keep-alive"
      · simp [hname, hkeep, hne.symm]
      · simp [hname, hclose, hkeep]
  · simp [hname]

/-- A line that decides overrides those in front of it. -/
theorem decision_append (lines : List Bytes) (l : Bytes) (default : Bool) :
    decision (lines ++ [l]) default =
      if decides l then decide (normalizeHeaderKey (fieldValue l) = .ofString "keep-alive")
      else decision lines default := by
  unfold decision
  rw [List.filter_append, List.filter_singleton]
  cases decides l with
  | false => rw [cond_false, List.append_nil, if_neg Bool.false_ne_true]
  | true => rw [cond_true, List.getLast?_concat, if_pos rfl]

theorem addHeaders_keepAlive (r : HttpRequest) (lines : List Bytes) :
    (r.addHeaders (lines.map fun l => (fieldName l, fieldValue l))).keepAlive =
      decision lines r.keepAlive := by
  induction lines using List.reverseRecOn with
  | nil => rfl
  | append_singleton lines l ih =>
    rw [decision_append, ← ih, ← connectionFlag_eq]
    unfold addHeaders
    rw [List.map_append, List.foldl_append]
    rfl

theorem finish_eq {r : HttpRequest} (hbody : r.body = []) (rest : Bytes) :
    r.finish rest = { r with
      state := if r.method = .get then .finish else .body
      body := if r.method = .get then [] else rest } := by
  unfold finish parseBody
  by_cases hget : r.method = .get
  · rw [if_pos hget, if_pos hget, if_pos hget, ← hbody]
  · rw [if_neg hget, if_neg hget, if_neg hget]
    split_ifs with hrest
    · rfl
    · rw [not_ne_iff.1 hrest, ← hbody]

/-- A table with the latest entry first gives the value of the last line with the name. -/
theorem lookup_headers (lines : List Bytes) (key : Bytes) :
    (lines.map fun l => (fieldName l, fieldValue l)).reverse.lookup key =
      (lines.filter fun l => fieldName l = key).getLast?.map fieldValue := by
  rw [lookup_reverse, List.filterMap_map, ← List.getLast?_map, ← List.filterMap_eq_map,
    List.filterMap_filter]
  simp only [Function.comp_def, decide_eq_true_eq]

/-! ### Texts -/

theorem methodOf_isSome {name : Bytes} : (methodOf name).isSome ↔ name ∈ methodNames := by
  unfold methodOf methodNames
  constructor
  · intro h
    split_ifs at h with hget hpost hput hdelete
    · simp [hget]
    · simp [hpost]
    · simp [hput]
    · simp [hdelete]
    · cases h
  · intro h
    simp only [List.mem_cons, List.not_mem_nil, or_false] at h
    rcases h with rfl | rfl | rfl | rfl <;> decide

theorem isVersionByte_iff {b : UInt8} : isVersionByte b ↔ 48 ≤ b ∧ b ≤ 57 ∨ b = 46 := by
  simp [isVersionByte, Bytes.isDigit]

namespace Message

variable (m : Message)

theorem line_eq : m.line =
    m.name ++ 32 :: (m.target ++ (.ofString " HTTP/" ++ (m.version ++ m.final))) := by
  unfold line lineText
  simp only [List.append_assoc]
  rfl

theorem matchRequestLine_line :
    matchRequestLine m.line = some (m.name, m.target, m.version) :=
  matchRequestLine_of_valid m.line_eq (isUpper_of_methodOf (methodOf_isSome.2 m.name_mem))
    m.target_ne m.target_blank m.version_ne
    (fun b hb => isVersionByte_iff.2 (m.version_class b hb)) m.final_eq

theorem line_ne_nil : m.line ≠ [] := by
  rw [line_eq]
  exact List.append_ne_nil_of_right_ne_nil _ (List.cons_ne_nil _ _)

theorem headerBlock : HeaderBlock 13 10 m.text (m.line :: m.lines) m.rest := by
  refine .of_lines (List.forall_mem_cons.2 ⟨⟨m.line_ne_nil, m.isLine⟩, fun l hl => ?_⟩) m.rest
  exact ⟨(m.header l hl).1, (m.header l hl).2.1⟩

theorem wellFormed : WellFormed (m.line :: m.lines) := by
  refine ⟨⟨m.name, m.target, m.version, m.final, m.line_eq, methodOf_isSome.2 m.name_mem,
    m.target_ne, m.target_blank, m.version_ne, fun b hb => ?_, m.final_eq⟩,
    fun l hl => (m.header l hl).2.2⟩
  exact isVersionByte_iff.2 (m.version_class b hb)

/-- A block whose lines are well formed is the text of a request. -/
theorem exists_of_wellFormed {data rest : Bytes} {lines : List Bytes}
    (hblock : HeaderBlock 13 10 data lines rest) (h : WellFormed lines) :
    ∃ m : Message, m.text = data := by
  have hdata := hblock.eq_append
  have hlines := hblock.isLine
  cases lines with
  | nil => exact absurd h.1 (by simp [ValidRequestLine])
  | cons line lines =>
    obtain ⟨⟨name, target, version, final, heq, hmethod, htarget, hblank, hversion, hclass,
      hfinal⟩, hcolon⟩ := h
    have hfirst : line = lineText name target version final := by
      simp only [lineText, List.append_assoc]
      exact heq
    have hisLine := (hlines line List.mem_cons_self).2
    have hheader := fun l hl => hlines l (List.mem_cons_of_mem line hl)
    subst hfirst
    exact ⟨{
      name, target, version, final, lines, rest
      name_mem := methodOf_isSome.1 hmethod
      target_ne := htarget
      target_blank := hblank
      version_ne := hversion
      version_class := fun b hb => isVersionByte_iff.1 (hclass b hb)
      final_eq := hfinal
      isLine := hisLine
      header := fun l hl => ⟨(hheader l hl).1, (hheader l hl).2, hcolon l hl⟩ }, hdata.symm⟩

/-- What the first line makes of a new object. -/
theorem parseRequestLine_line {method : HttpMethod} (h : methodOf m.name = some method) :
    parseRequestLine {} m.line = (true, ({
      method, path := urlDecode m.target, version := .ofString "HTTP/" ++ m.version
      keepAlive := Bytes.ofString "HTTP/" ++ m.version = .ofString "HTTP/1.1" } :
        HttpRequest)) := by
  unfold parseRequestLine
  rw [matchRequestLine_line]
  dsimp only
  rw [h]

theorem persistent_eq : m.persistent =
    decision m.lines (Bytes.ofString "HTTP/" ++ m.version = .ofString "HTTP/1.1") := by
  have hversion : Bytes.ofString "HTTP/" ++ m.version = .ofString "HTTP/1.1" ↔
      m.version = .ofString "1.1" :=
    List.append_right_inj (Bytes.ofString "HTTP/")
  unfold persistent
  simp only [hversion]

/-- The object that `parse` makes of the text of a request. -/
theorem parse_text : ∃ method, methodOf m.name = some method ∧
    ({} : HttpRequest).parse m.text = (true, ({
      state := if method = .get then .finish else .body
      method, path := urlDecode m.target, version := .ofString "HTTP/" ++ m.version
      body := if method = .get then [] else m.rest
      keepAlive := m.persistent
      headers := (m.lines.map fun l => (fieldName l, fieldValue l)).reverse } : HttpRequest)) := by
  obtain ⟨method, hmethod⟩ := Option.isSome_iff_exists.1 (methodOf_isSome.2 m.name_mem)
  refine ⟨method, hmethod, ?_⟩
  have hok : ({} : HttpRequest).parse m.text = (true, (({} : HttpRequest).parse m.text).2) :=
    Prod.ext ((parse_iff m.headerBlock).2 m.wellFormed) rfl
  obtain ⟨line, lines, hs, rest, r, hblock, hline, hmap, hreq⟩ := parse_eq_true hok
  -- the lines that `parse` has seen are those of the message
  obtain ⟨hlines, hrest⟩ := m.headerBlock.unique (by decide) hblock
  obtain ⟨rfl, rfl⟩ := List.cons.inj hlines
  rw [m.parseRequestLine_line hmethod] at hline
  cases hline
  rw [hok, hreq, ← hrest, eq_map_of_splitHeader hmap fun l hl => (m.header l hl).2.2,
    addHeaders_eq, finish_eq rfl, addHeaders_keepAlive, ← persistent_eq, List.append_nil]

end Message

/-- The name of the method that a first line has. -/
theorem getMethodName_of_methodOf {r : HttpRequest} {name : Bytes}
    (h : methodOf name = some r.method) : r.getMethodName = name := by
  unfold methodOf at h
  unfold getMethodName
  split_ifs at h with hget hpost hput hdelete
  · rw [← Option.some.inj h, hget]
  · rw [← Option.some.inj h, hpost]
  · rw [← Option.some.inj h, hput]
  · rw [← Option.some.inj h, hdelete]

theorem methodOf_eq_get_iff {name : Bytes} :
    methodOf name = some .get ↔ name = .ofString "GET" := by
  unfold methodOf
  split_ifs with hget <;> simp_all

/-- **A new object accepts the texts of the grammar and returns what stands in them.** -/
theorem parse_grammar (data : Bytes) :
    let parsed := ({} : HttpRequest).parse data
    (parsed.1 = true ↔ ∃ m : Message, m.text = data) ∧
      ∀ m : Message, m.text = data →
        parsed.2.getMethodName = m.name ∧ parsed.2.path = urlDecode m.target ∧
        parsed.2.version = .ofString "HTTP/" ++ m.version ∧
        (∀ key, parsed.2.getHeader key = m.headerValue key) ∧
        parsed.2.keepAlive = m.persistent ∧
        parsed.2.body = if m.name = .ofString "GET" then [] else m.rest := by
  intro parsed
  refine ⟨⟨fun h => ?_, ?_⟩, ?_⟩
  · have hok : ({} : HttpRequest).parse data = (true, parsed.2) := Prod.ext h rfl
    obtain ⟨line, lines, -, rest, -, hblock, -, -, -⟩ := parse_eq_true hok
    exact Message.exists_of_wellFormed hblock ((parse_iff hblock).1 h)
  · rintro ⟨m, rfl⟩
    exact (parse_iff m.headerBlock).2 m.wellFormed
  · rintro m rfl
    obtain ⟨method, hmethod, hparse⟩ := m.parse_text
    have hreq : parsed.2 = _ := congrArg Prod.snd hparse
    have hget : method = .get ↔ m.name = .ofString "GET" := by
      rw [← methodOf_eq_get_iff, hmethod, Option.some.injEq]
    rw [hreq]
    refine ⟨getMethodName_of_methodOf hmethod, rfl, rfl, fun key => ?_, rfl, ?_⟩
    · exact congrArg (·.getD []) (lookup_headers m.lines (normalizeHeaderKey key))
    · simp only [hget]

end HttpRequest

end MiniServer
