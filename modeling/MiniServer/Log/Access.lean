import MiniServer.Http.Acceptance
import MiniServer.Log.Logger
import MiniServer.Text.Decimal
import MiniServer.Text.Fields

/-!
# The access log

`processConnectionTask` logs every answer with `Logger::access`, `closeIdleConnections` logs with
`Logger::info`.  A reader of the documented format

    2026-05-16 10:30:00 ACCESS 127.0.0.1 GET /index.html 200 1024

cuts the file into lines and a line into the fields between blanks; `readAccess` takes what is
between the method and the status as the path, `readFields` wants eight fields.

The path is the decoded target, and it is written as it is: with a line feed in it, a record is more
than one line.
-/

namespace MiniServer

/-! ### Lines -/

/-- `std::tm`, with the numbers as they are printed. -/
structure Tm where
  year : ℕ
  mon : ℕ
  mday : ℕ
  hour : ℕ
  min : ℕ
  sec : ℕ
  deriving DecidableEq, Repr

/-- A number with two digits at least. -/
def twoDigits (n : ℕ) : Bytes := if n < 10 then 48 :: Bytes.ofNat n else Bytes.ofNat n

/-- `%Y-%m-%d`. -/
def Tm.date (t : Tm) : Bytes :=
  Bytes.ofNat t.year ++ .ofString "-" ++ twoDigits t.mon ++ .ofString "-" ++ twoDigits t.mday

/-- `%H:%M:%S`. -/
def Tm.time (t : Tm) : Bytes :=
  twoDigits t.hour ++ .ofString ":" ++ twoDigits t.min ++ .ofString ":" ++ twoDigits t.sec

/-- `Logger::now` at a time. -/
def Logger.now (t : Tm) : Bytes := t.date ++ .ofString " " ++ t.time

/-- `struct in_addr`. -/
structure InAddr where
  a : UInt8
  b : UInt8
  c : UInt8
  d : UInt8
  deriving DecidableEq, Repr

/-- `inet_ntoa`. -/
def inetNtoa (ip : InAddr) : Bytes :=
  Bytes.ofNat ip.a.toNat ++ .ofString "." ++ Bytes.ofNat ip.b.toNat ++ .ofString "." ++
    Bytes.ofNat ip.c.toNat ++ .ofString "." ++ Bytes.ofNat ip.d.toNat

/-- The arguments of `Logger::access`. -/
structure AccessRecord where
  clientIp : Bytes
  method : Bytes
  path : Bytes
  statusCode : ℤ
  bytesSent : ℕ
  deriving DecidableEq, Repr

namespace Logger

/-- The line that `Logger::access` queues. -/
def access (t : Tm) (r : AccessRecord) : Bytes :=
  now t ++ .ofString " ACCESS " ++ r.clientIp ++ .ofString " " ++ r.method ++ .ofString " " ++
    r.path ++ .ofString " " ++ Bytes.ofInt r.statusCode ++ .ofString " " ++ Bytes.ofNat r.bytesSent

/-- The line that `Logger::info` queues. -/
def info (t : Tm) (message : Bytes) : Bytes := now t ++ .ofString " INFO " ++ message

/-- A call of the logger by the server. -/
inductive Call where
  /-- `processConnectionTask` has answered a raw request; the site is what the answer depended
  on at that moment. -/
  | access (t : Tm) (client : InAddr) (site : Site Id) (raw : Bytes)
  /-- `closeIdleConnections` closes a connection. -/
  | idle (t : Tm) (fd : ℕ)

/-- The arguments of a call of `access`. -/
def Call.record : Call → Option AccessRecord
  | access _ client site raw =>
    let answer := site.reply raw
    some ⟨inetNtoa client, answer.method, answer.path, answer.statusCode, answer.bytesSent⟩
  | idle _ _ => none

/-- The line of a call. -/
def Call.line : Call → Bytes
  | access t client site raw =>
    let answer := site.reply raw
    Logger.access t
      ⟨inetNtoa client, answer.method, answer.path, answer.statusCode, answer.bytesSent⟩
  | idle t fd => info t (.ofString "idle timeout fd=" ++ Bytes.ofNat fd)

/-- The target of an accepted request, decoded, does not contain a byte. -/
def Call.Free (b : UInt8) : Call → Prop
  | access _ _ _ raw =>
    (({} : HttpRequest).parse raw).1 = true →
      b ∉ HttpRequest.urlDecode (HttpRequest.target raw)
  | idle _ _ => True

/-! ### Reading the documented format -/

/-- A run of digits. -/
def readNat (s : Bytes) : Option ℕ :=
  if s ≠ [] ∧ s.all Bytes.isDigit then some (Bytes.value s) else none

/-- A run of digits with or without a sign. -/
def readInt : Bytes → Option ℤ
  | [] => none
  | b :: s =>
    if b = 45 then (readNat s).map fun n => -(n : ℤ) else (readNat (b :: s)).map Int.ofNat

/-- What is behind the method: the path with the blanks in it and the two numbers. -/
def readTail (clientIp method : Bytes) (fields : List Bytes) : Option AccessRecord :=
  match fields.reverse with
  | bytesSent :: statusCode :: path =>
    if path = [] then none
    else do
      let statusCode ← readInt statusCode
      let bytesSent ← readNat bytesSent
      return ⟨clientIp, method, [32].intercalate path.reverse, statusCode, bytesSent⟩
  | _ => none

/-- An access record, whatever blanks are in its path. -/
def readAccess (line : Bytes) : Option AccessRecord :=
  match line.splitOn 32 with
  | _ :: _ :: tag :: clientIp :: method :: fields =>
    if tag = Bytes.ofString "ACCESS" then readTail clientIp method fields else none
  | _ => none

/-- An access record with the eight fields of the format. -/
def readFields (line : Bytes) : Option AccessRecord :=
  if (line.splitOn 32).length = 8 then readAccess line else none

/-- The lines of a file. -/
def fileLines (file : Bytes) : List Bytes := Text.closed 10 file

theorem readNat_ofNat (n : ℕ) : readNat (Bytes.ofNat n) = some n := by
  have h := Bytes.Decimal.ofNat n
  unfold readNat
  rw [if_pos ⟨h.nonempty, List.all_eq_true.2 h.digit⟩, h.value_eq]

theorem readInt_ofInt (n : ℤ) : readInt (Bytes.ofInt n) = some n := by
  cases n with
  | ofNat n =>
    have h := Bytes.Decimal.ofNat n
    have hread := readNat_ofNat n
    show readInt (Bytes.ofNat n) = _
    cases hdigits : Bytes.ofNat n with
    | nil => exact absurd hdigits h.nonempty
    | cons b s =>
      rw [hdigits] at h hread
      have hsign : b ≠ 45 := by
        rintro rfl
        exact absurd (h.digit 45 List.mem_cons_self) (by decide)
      rw [readInt, if_neg hsign, hread]
      rfl
  | negSucc n =>
    show readInt (45 :: Bytes.ofNat (n + 1)) = _
    rw [readInt, if_pos rfl, readNat_ofNat]
    rfl

/-! ### Words -/

/-- A text that is one field of one line. -/
structure Word (s : Bytes) : Prop where
  blank : 32 ∉ s
  feed : 10 ∉ s

theorem Word.append {s t : Bytes} (hs : Word s) (ht : Word t) : Word (s ++ t) :=
  ⟨by simp [hs.blank, ht.blank], by simp [hs.feed, ht.feed]⟩

theorem Word.splitOn {s : Bytes} (h : Word s) : s.splitOn 32 = [s] :=
  List.splitOn_eq_singleton h.blank

theorem word_ofNat (n : ℕ) : Word (Bytes.ofNat n) :=
  ⟨(Bytes.Decimal.ofNat n).not_mem (by decide), (Bytes.Decimal.ofNat n).not_mem (by decide)⟩

theorem word_ofInt (n : ℤ) : Word (Bytes.ofInt n) := by
  cases n with
  | ofNat n => exact word_ofNat n
  | negSucc n =>
    exact Word.append (s := [45]) ⟨by decide, by decide⟩ (word_ofNat (n + 1))

theorem word_twoDigits (n : ℕ) : Word (twoDigits n) := by
  unfold twoDigits
  split_ifs
  · exact Word.append (s := [48]) ⟨by decide, by decide⟩ (word_ofNat n)
  · exact word_ofNat n

theorem word_date (t : Tm) : Word t.date := by
  have hdash : Word (.ofString "-") := ⟨by decide, by decide⟩
  exact ((((word_ofNat _).append hdash).append (word_twoDigits _)).append hdash).append
    (word_twoDigits _)

theorem word_time (t : Tm) : Word t.time := by
  have hcolon : Word (.ofString ":") := ⟨by decide, by decide⟩
  exact ((((word_twoDigits _).append hcolon).append (word_twoDigits _)).append hcolon).append
    (word_twoDigits _)

theorem word_inetNtoa (ip : InAddr) : Word (inetNtoa ip) := by
  have hdot : Word (.ofString ".") := ⟨by decide, by decide⟩
  exact ((((((word_ofNat _).append hdot).append (word_ofNat _)).append hdot).append
    (word_ofNat _)).append hdot).append (word_ofNat _)

theorem word_getMethodName (request : HttpRequest) : Word request.getMethodName := by
  unfold HttpRequest.getMethodName
  cases request.method <;> exact ⟨by decide, by decide⟩

/-! ### What a line reads back -/

theorem access_eq (t : Tm) (r : AccessRecord) : access t r = [32].intercalate
    [t.date, t.time, Bytes.ofString "ACCESS", r.clientIp, r.method, r.path,
      Bytes.ofInt r.statusCode, Bytes.ofNat r.bytesSent] := by
  have hblank : Bytes.ofString " " = [32] := by decide
  have htag : Bytes.ofString " ACCESS " = [32] ++ Bytes.ofString "ACCESS" ++ [32] := by decide
  simp only [access, now, hblank, htag, List.intercalate_cons_cons, List.intercalate_singleton,
    List.append_assoc]

theorem splitOn_access (t : Tm) {r : AccessRecord} (hip : Word r.clientIp) (hm : Word r.method) :
    (access t r).splitOn 32 =
      t.date :: t.time :: Bytes.ofString "ACCESS" :: r.clientIp :: r.method ::
        (r.path.splitOn 32 ++ [Bytes.ofInt r.statusCode, Bytes.ofNat r.bytesSent]) := by
  have htag : Word (.ofString "ACCESS") := ⟨by decide, by decide⟩
  rw [access_eq, Text.splitOn_intercalate (List.cons_ne_nil _ _)]
  simp only [List.flatMap_cons, List.flatMap_nil, (word_date t).splitOn, (word_time t).splitOn,
    htag.splitOn, hip.splitOn, hm.splitOn, (word_ofInt r.statusCode).splitOn,
    (word_ofNat r.bytesSent).splitOn]
  rfl

/-- Blanks in the path do no harm to a reader that knows what stands around it. -/
theorem readAccess_access (t : Tm) {r : AccessRecord} (hip : Word r.clientIp)
    (hm : Word r.method) : readAccess (access t r) = some r := by
  have hreverse :
      (r.path.splitOn 32 ++ [Bytes.ofInt r.statusCode, Bytes.ofNat r.bytesSent]).reverse =
        Bytes.ofNat r.bytesSent :: Bytes.ofInt r.statusCode :: (r.path.splitOn 32).reverse := by
    simp
  have hpath : (r.path.splitOn 32).reverse ≠ [] := by simp
  unfold readAccess
  rw [splitOn_access t hip hm]
  dsimp only
  rw [if_pos rfl, readTail, hreverse]
  dsimp only
  rw [if_neg hpath, readInt_ofInt, readNat_ofNat, List.reverse_reverse, List.intercalate_splitOn]
  rfl

theorem readFields_access (t : Tm) {r : AccessRecord} (hip : Word r.clientIp)
    (hm : Word r.method) : readFields (access t r) = some r ↔ 32 ∉ r.path := by
  have hlength : ((access t r).splitOn 32).length = (r.path.splitOn 32).length + 7 := by
    rw [splitOn_access t hip hm]
    simp
  unfold readFields
  rw [hlength, ← Text.length_splitOn_eq_one_iff]
  split_ifs with height
  · exact iff_of_true (readAccess_access t hip hm) (by omega)
  · exact iff_of_false nofun (by omega)

theorem feed_mem_access (t : Tm) {r : AccessRecord} (hip : Word r.clientIp)
    (hm : Word r.method) : 10 ∉ access t r ↔ 10 ∉ r.path := by
  have hblank : (10 : UInt8) ∉ Bytes.ofString " " := by decide
  have htag : (10 : UInt8) ∉ Bytes.ofString " ACCESS " := by decide
  simp [access, now, hblank, htag, hip.feed, hm.feed, (word_date t).feed, (word_time t).feed,
    (word_ofInt r.statusCode).feed, (word_ofNat r.bytesSent).feed]

theorem readAccess_info (t : Tm) (message : Bytes) : readAccess (info t message) = none := by
  have htag : Word (.ofString "INFO") := ⟨by decide, by decide⟩
  have heq : info t message =
      [32].intercalate [t.date, t.time, Bytes.ofString "INFO", message] := by
    have hblank : Bytes.ofString " " = [32] := by decide
    have hinfo : Bytes.ofString " INFO " = [32] ++ Bytes.ofString "INFO" ++ [32] := by decide
    simp only [info, now, hblank, hinfo, List.intercalate_cons_cons, List.intercalate_singleton,
      List.append_assoc]
  have hsplit : (info t message).splitOn 32 =
      t.date :: t.time :: Bytes.ofString "INFO" :: message.splitOn 32 := by
    rw [heq, Text.splitOn_intercalate (List.cons_ne_nil _ _)]
    simp only [List.flatMap_cons, List.flatMap_nil, (word_date t).splitOn, (word_time t).splitOn,
      htag.splitOn, List.append_nil]
    rfl
  unfold readAccess
  rw [hsplit]
  split
  · rename_i hfields
    obtain ⟨-, -, rfl, -⟩ := by simpa using hfields
    exact if_neg (by decide)
  · rfl

end Logger

/-! ### The calls of the server -/

namespace Site

variable (site : Site Id)

theorem method_answerRequest (request : HttpRequest) :
    (Id.run (site.answerRequest request)).method = request.getMethodName ∧
      (Id.run (site.answerRequest request)).path = request.path := by
  unfold answerRequest
  split_ifs <;> exact ⟨rfl, rfl⟩

/-- What is logged of an accepted request and of a refused one. -/
theorem reply_method_path (raw : Bytes) :
    Logger.Word (site.reply raw).method ∧
      (site.reply raw).path = if (({} : HttpRequest).parse raw).1 = true then
        HttpRequest.urlDecode (HttpRequest.target raw) else .ofString "-" := by
  unfold reply answer
  split
  · rename_i hparse
    rw [hparse]
    exact ⟨⟨by decide, by decide⟩, rfl⟩
  · rename_i request hparse
    obtain ⟨hmethod, hpath⟩ := site.method_answerRequest request
    have hok := HttpRequest.path_of_parse
      (show (({} : HttpRequest).parse raw).1 = true by rw [hparse])
    rw [hmethod, hpath, if_pos (by rw [hparse]), ← hok, hparse]
    exact ⟨Logger.word_getMethodName request, rfl⟩

end Site

namespace Logger

theorem Call.free_iff {b : UInt8} (hb : b ≠ 45) {c : Call} :
    c.Free b ↔ ∀ r, c.record = some r → b ∉ r.path := by
  cases c with
  | idle t fd => exact iff_of_true trivial nofun
  | access t client site raw =>
    obtain ⟨-, hpath⟩ := site.reply_method_path raw
    have hdash : b ∉ Bytes.ofString "-" := by
      rw [show Bytes.ofString "-" = [45] by decide, List.mem_singleton]
      exact hb
    constructor
    · rintro h r ⟨⟩
      show b ∉ (site.reply raw).path
      rw [hpath]
      split_ifs with hok
      · exact h hok
      · exact hdash
    · intro h hok
      have hfree := h _ rfl
      dsimp only at hfree
      rwa [hpath, if_pos hok] at hfree

/-- The line of a call of `access` is made from words, but for the path. -/
theorem Call.line_access {c : Call} {r : AccessRecord} (h : c.record = some r) :
    ∃ t, c.line = Logger.access t r ∧ Word r.clientIp ∧ Word r.method := by
  cases c with
  | idle t fd => cases h
  | access t client site raw =>
    cases h
    exact ⟨t, rfl, word_inetNtoa client, (site.reply_method_path raw).1⟩

theorem Call.line_idle {c : Call} (h : c.record = none) :
    ∃ t message, c.line = info t message ∧ 10 ∉ message := by
  cases c with
  | access t client site raw => cases h
  | idle t fd =>
    have htext : (10 : UInt8) ∉ Bytes.ofString "idle timeout fd=" := by decide +kernel
    refine ⟨t, _, rfl, ?_⟩
    rw [List.mem_append, not_or]
    exact ⟨htext, (word_ofNat fd).feed⟩

theorem Call.feed_iff {c : Call} : 10 ∉ c.line ↔ c.Free 10 := by
  rw [free_iff (by decide)]
  cases hrecord : c.record with
  | none =>
    obtain ⟨t, message, hline, hmessage⟩ := line_idle hrecord
    have hblank : (10 : UInt8) ∉ Bytes.ofString " " := by decide
    have htag : (10 : UInt8) ∉ Bytes.ofString " INFO " := by decide
    rw [hline]
    refine iff_of_true ?_ nofun
    simp [info, now, hblank, htag, hmessage, (word_date t).feed, (word_time t).feed]
  | some r =>
    obtain ⟨t, hline, hip, hm⟩ := line_access hrecord
    rw [hline, feed_mem_access t hip hm]
    exact ⟨fun h r' hr' => Option.some.inj hr' ▸ h, fun h => h r rfl⟩

theorem Call.readAccess_line (c : Call) : readAccess c.line = c.record := by
  cases hrecord : c.record with
  | none =>
    obtain ⟨t, message, hline, -⟩ := line_idle hrecord
    rw [hline, readAccess_info]
  | some r =>
    obtain ⟨t, hline, hip, hm⟩ := line_access hrecord
    rw [hline, readAccess_access t hip hm]

theorem Call.readFields_line (c : Call) : readFields c.line = c.record ↔ c.Free 32 := by
  rw [free_iff (by decide)]
  cases hrecord : c.record with
  | none =>
    have hread := c.readAccess_line
    rw [hrecord] at hread
    refine iff_of_true ?_ nofun
    unfold readFields
    split_ifs
    · exact hread
    · rfl
  | some r =>
    obtain ⟨t, hline, hip, hm⟩ := line_access hrecord
    rw [hline, readFields_access t hip hm]
    exact ⟨fun h r' hr' => Option.some.inj hr' ▸ h, fun h => h r rfl⟩

/-- Reading the text of some calls back. -/
theorem map_read_iff (read : Bytes → Option AccessRecord) (calls : List Call) :
    (fileLines (text (calls.map Call.line))).map read = calls.map Call.record ↔
      ∀ c ∈ calls, c.Free 10 ∧ read c.line = c.record := by
  constructor
  · intro h
    -- there are as many lines as calls, so no call made two
    have hlength := congrArg List.length h
    rw [List.length_map, List.length_map, ← List.length_map Call.line] at hlength
    have hfree := Text.length_closed_iff.1 hlength
    unfold fileLines at h
    rw [show text (calls.map Call.line) = Text.closeAll 10 (calls.map Call.line) from rfl,
      Text.closed_closeAll_of_not_mem hfree, List.map_map, List.map_inj_left] at h
    exact fun c hc => ⟨Call.feed_iff.1 (hfree _ (List.mem_map_of_mem hc)), h c hc⟩
  · intro h
    have hfree : ∀ l ∈ calls.map Call.line, 10 ∉ l := by
      rintro l hl
      obtain ⟨c, hc, rfl⟩ := List.mem_map.1 hl
      exact Call.feed_iff.2 (h c hc).1
    unfold fileLines
    rw [show text (calls.map Call.line) = Text.closeAll 10 (calls.map Call.line) from rfl,
      Text.closed_closeAll_of_not_mem hfree, List.map_map, List.map_inj_left]
    exact fun c hc => (h c hc).2

/-- What a run adds to the file when the worker has written everything and has been joined. -/
theorem file_of_drained {old : Bytes} {s : Logger} {m : Ledger}
    (h : ((lts old).record {} Ledger.write).Reachable (s, m)) (hqueue : s.queue = [])
    (hworker : s.worker = none) : s.file = old ++ text m.enqueued := by
  have hs := logs_of_reachable h
  have hlines := hs.lines
  have hbytes := hs.bytes
  simp only [batch, hworker, hqueue, List.append_nil] at hlines
  simp only [buffer, hworker, List.append_nil] at hbytes
  rw [hbytes, hlines]

/-- **One record is one line exactly when no path has a line feed.**  In every run, what the server
adds to the file has as many lines as the logger was called exactly when no accepted request has a
target that decodes to a line feed; under this condition, and only under it, the lines give the
arguments of every call back.  A reader that wants eight fields needs paths without blanks too. -/
theorem one_line_each {old : Bytes} {s : Logger} {m : Ledger} {calls : List Call}
    (h : ((lts old).record {} Ledger.write).Reachable (s, m)) (hqueue : s.queue = [])
    (hworker : s.worker = none) (hcalls : m.enqueued = calls.map Call.line) :
    let lines := fileLines (s.file.drop old.length)
    (lines.length = calls.length ↔ ∀ c ∈ calls, c.Free 10) ∧
    (lines.map readAccess = calls.map Call.record ↔ ∀ c ∈ calls, c.Free 10) ∧
    (lines.map readFields = calls.map Call.record ↔ ∀ c ∈ calls, c.Free 10 ∧ c.Free 32) := by
  intro lines
  have hlines : lines = fileLines (text (calls.map Call.line)) := by
    show fileLines (s.file.drop old.length) = _
    rw [file_of_drained h hqueue hworker, List.drop_left, hcalls]
  rw [hlines]
  refine ⟨?_, ?_, ?_⟩
  · rw [← List.length_map Call.line]
    refine Text.length_closed_iff.trans ?_
    rw [List.forall_mem_map]
    exact forall₂_congr fun c _ => Call.feed_iff
  · refine (map_read_iff readAccess calls).trans (forall₂_congr fun c _ => ?_)
    exact ⟨And.left, fun hfree => ⟨hfree, c.readAccess_line⟩⟩
  · refine (map_read_iff readFields calls).trans (forall₂_congr fun c _ => ?_)
    exact and_congr_right fun _ => c.readFields_line

/-- A run that logs one line and is shut down. -/
def oneLine (line : Bytes) : List Label :=
  [.init, .enqueue line, .worker, .worker, .worker, .shutdown, .worker, .join]

/-- A request that is answered with 404. -/
def sampleCall (raw : String) : Call :=
  .access ⟨2026, 5, 16, 10, 30, 0⟩ ⟨127, 0, 0, 1⟩ .empty (.ofString raw)

/-- A blank in the path: the record can be read, but not by its eight fields. -/
theorem one_line_each_blank :
    let c := sampleCall "GET /a+b HTTP/1.1\r\n\r\n"
    ∃ s m, ((lts []).record {} Ledger.write).Reachable (s, m) ∧
      (fileLines s.file).map readAccess = [c.record] ∧
      (fileLines s.file).map readFields ≠ [c.record] := by
  intro c
  obtain ⟨⟨s, m⟩, hrun, hqueue, hworker, hline⟩ :
      ∃ p ∈ ((lts []).record {} Ledger.write).run ((lts []).record {} Ledger.write).init
          (oneLine c.line),
        p.1.queue = [] ∧ p.1.worker = none ∧ p.2.enqueued = [c].map Call.line := by decide +kernel
  have h := LTS.reachable_of_run hrun
  obtain ⟨-, haccess, hfields⟩ := one_line_each h hqueue hworker hline
  have hfeed : ∀ c' ∈ [c], c'.Free 10 := by
    intro c' hc'
    obtain rfl := List.mem_singleton.1 hc'
    exact fun _ => show 10 ∉ _ by decide +kernel
  refine ⟨s, m, h, haccess.2 hfeed, fun heq => ?_⟩
  have hfree := (hfields.1 heq c List.mem_cons_self).2
  exact absurd (hfree (by decide +kernel)) (by decide +kernel)

/-- **A client forges a record.**  One request whose target has `%0A` in it leaves two lines, and
each of them reads as an access record. -/
theorem forged_record :
    let c := sampleCall
      "GET /x+200+5%0A2026-05-16+10:30:01+ACCESS+10.0.0.1+GET+/y HTTP/1.1\r\n\r\n"
    ∃ s m, ((lts []).record {} Ledger.write).Reachable (s, m) ∧ s.queue = [] ∧ s.worker = none ∧
      m.enqueued = [c].map Call.line ∧
      (fileLines s.file).map readFields =
        [some ⟨.ofString "127.0.0.1", .ofString "GET", .ofString "/x", 200, 5⟩,
          some ⟨.ofString "10.0.0.1", .ofString "GET", .ofString "/y", 404, 259⟩] := by
  intro c
  obtain ⟨⟨s, m⟩, hrun, hrest⟩ :
      ∃ p ∈ ((lts []).record {} Ledger.write).run ((lts []).record {} Ledger.write).init
          (oneLine c.line),
        p.1.queue = [] ∧ p.1.worker = none ∧ p.2.enqueued = [c].map Call.line ∧
        (fileLines p.1.file).map readFields =
          [some ⟨.ofString "127.0.0.1", .ofString "GET", .ofString "/x", 200, 5⟩,
            some ⟨.ofString "10.0.0.1", .ofString "GET", .ofString "/y", 404, 259⟩] := by
    decide +kernel
  exact ⟨s, m, LTS.reachable_of_run hrun, hrest⟩

end Logger

end MiniServer
