import MiniServer.Connection.Basic
import MiniServer.Stream.Framer

/-!
# Framing of requests does not depend on chunking

`extractOneRequest` looks for the first `CRLF CRLF` and reads the declared length from the
header block in front of it.  Both stay the same when bytes are appended, so `cutRequest` is a
`Framer` (`Connection.framer`), also where the sum of the lengths wraps.

`Connection.schedule` is any interleaving of `appendReadData` with attempts to extract;
`schedule_eq_whole` compares it with appending the whole stream first.
-/

namespace MiniServer

namespace Connection

theorem take_addSize_append {s : Bytes} {h : ℕ} (hle : h + 4 ≤ s.length) (t : Bytes) :
    (s ++ t).take (addSize h 4) = s.take (addSize h 4) := by
  have hmod : addSize h 4 ≤ h + 4 := Nat.mod_le _ _
  exact List.take_append_of_le_length (by omega)

/-- The length of the first request is settled once its header block is complete. -/
theorem requestLength_append {s : Bytes} {n : ℕ} (h : requestLength s = some n) (t : Bytes) :
    requestLength (s ++ t) = some n := by
  unfold requestLength at h ⊢
  obtain ⟨headerEnd, hfind, hn⟩ := Option.map_eq_some_iff.1 h
  rw [Text.find_append hfind t, Option.map_some]
  simp only [take_addSize_append (Text.find_le hfind) t]
  exact congrArg some hn

theorem cutRequest_eq_some_iff {s raw rest : Bytes} :
    cutRequest s = some (raw, rest) ↔ ∃ n, requestLength s = some n ∧ n ≤ s.length ∧
      s.take n = raw ∧ s.drop n = rest := by
  unfold cutRequest
  cases hn : requestLength s with
  | none => simp
  | some n =>
    simp only [Option.some.injEq, exists_eq_left']
    split_ifs with hlt
    · simp only [false_iff]
      omega
    · simp only [Option.some.injEq, Prod.mk.injEq, iff_and_self]
      omega

/-- `cutRequest` cuts requests off the front of `readBuf`. -/
def framer : Framer UInt8 where
  cut := cutRequest
  append_of_cut h := by
    obtain ⟨n, -, -, rfl, rfl⟩ := cutRequest_eq_some_iff.1 h
    exact List.take_append_drop _ _
  cut_append h t := by
    obtain ⟨n, hn, hle, rfl, rfl⟩ := cutRequest_eq_some_iff.1 h
    refine cutRequest_eq_some_iff.2 ⟨n, requestLength_append hn t, ?_, ?_, ?_⟩
    · rw [List.length_append]; omega
    · exact List.take_append_of_le_length hle
    · exact List.drop_append_of_le_length hle

theorem extractOneRequest_eq_none_iff {c : Connection} :
    c.extractOneRequest = none ↔ framer.cut c.readBuf = none :=
  Option.map_eq_none_iff

theorem extractOneRequest_eq_some_iff {c c' : Connection} {raw : Bytes} :
    c.extractOneRequest = some (raw, c') ↔
      ∃ rest, framer.cut c.readBuf = some (raw, rest) ∧ c' = { c with readBuf := rest } := by
  unfold extractOneRequest
  rw [Option.map_eq_some_iff]
  constructor
  · rintro ⟨⟨raw', rest⟩, hcut, heq⟩
    cases heq
    exact ⟨rest, hcut, rfl⟩
  · rintro ⟨rest, hcut, rfl⟩
    exact ⟨(raw, rest), hcut, rfl⟩

/-- No request can be cut from an empty buffer. -/
theorem framer_cut_nil : framer.cut [] = none := by decide

/-! ### Schedules of appends and extractions -/

/-- A step of a reader. -/
inductive ReadOp where
  | append (chunk : Bytes)
  | extract

/-- One step: the connection and the requests extracted so far. -/
def readStep : Connection × List Bytes → ReadOp → Connection × List Bytes
  | (c, got), .append chunk => (c.appendReadData chunk, got)
  | (c, got), .extract =>
    match c.extractOneRequest with
    | none => (c, got)
    | some (raw, c') => (c', got ++ [raw])

/-- A schedule from a new connection. -/
def schedule (fd : ℕ) (peerIp : Bytes) (ops : List ReadOp) : Connection × List Bytes :=
  ops.foldl readStep ({ fd, peerIp }, [])

/-- The bytes a schedule appends. -/
def appended : List ReadOp → Bytes
  | [] => []
  | .append chunk :: ops => chunk ++ appended ops
  | .extract :: ops => appended ops

/-- Extract up to `n` requests, stopping at the answer `false`. -/
def extractN : ℕ → Connection → List Bytes × Connection
  | 0, c => ([], c)
  | n + 1, c =>
    match c.extractOneRequest with
    | none => ([], c)
    | some (raw, c') => (raw :: (extractN n c').1, (extractN n c').2)

theorem extractN_eq_cutN (n : ℕ) (c : Connection) :
    extractN n c = ((framer.cutN n c.readBuf).1,
      { c with readBuf := (framer.cutN n c.readBuf).2 }) := by
  induction n generalizing c with
  | zero => rfl
  | succ n ih =>
    rw [extractN, Framer.cutN]
    cases hex : c.extractOneRequest with
    | none =>
      rw [extractOneRequest_eq_none_iff.1 hex]
    | some p =>
      obtain ⟨raw, c'⟩ := p
      obtain ⟨rest, hcut, rfl⟩ := extractOneRequest_eq_some_iff.1 hex
      rw [hcut]
      dsimp only
      rw [ih]

theorem cuts_foldl_readStep (ops : List ReadOp) {c : Connection} {got : List Bytes} {s : Bytes}
    (h : framer.Cuts s got c.readBuf) :
    framer.Cuts (s ++ appended ops) (ops.foldl readStep (c, got)).2
      (ops.foldl readStep (c, got)).1.readBuf := by
  induction ops generalizing c got s with
  | nil => simpa [appended] using h
  | cons op ops ih =>
    cases op with
    | append chunk =>
      rw [appended, ← List.append_assoc]
      exact ih (c := c.appendReadData chunk) (h.append chunk)
    | extract =>
      rw [appended, List.foldl_cons, readStep]
      cases hex : c.extractOneRequest with
      | none => exact ih h
      | some p =>
        obtain ⟨raw, c'⟩ := p
        obtain ⟨rest, hcut, rfl⟩ := extractOneRequest_eq_some_iff.1 hex
        exact ih (h.snoc hcut)

/-- **Framing does not depend on chunking.**  For every schedule of appends and extractions,
the requests extracted are the first ones that would be extracted from the whole stream, they
and the buffer make up the bytes appended, and once an extraction fails after the last chunk
they are all the requests of the stream and the buffer is what the stream leaves over. -/
theorem schedule_eq_whole (fd : ℕ) (peerIp : Bytes) (ops : List ReadOp) :
    let whole := ({ fd, peerIp } : Connection).appendReadData (appended ops)
    let c := (schedule fd peerIp ops).1
    let got := (schedule fd peerIp ops).2
    (extractN got.length whole).1 = got ∧
      got.flatten ++ c.readBuf = appended ops ∧
      (c.extractOneRequest = none → ∀ n, got.length ≤ n →
        (extractN n whole).1 = got ∧ (extractN n whole).2.readBuf = c.readBuf) := by
  intro whole c got
  have hcuts : framer.Cuts (appended ops) got c.readBuf :=
    cuts_foldl_readStep ops (c := { fd, peerIp }) (Framer.Cuts.nil [])
  refine ⟨?_, hcuts.flatten_append, fun hnone n hn => ?_⟩
  · rw [extractN_eq_cutN _ whole]
    exact congrArg Prod.fst hcuts
  · have hall := hcuts.cutN_eq (extractOneRequest_eq_none_iff.1 hnone) hn
    rw [extractN_eq_cutN n whole]
    exact ⟨congrArg Prod.fst hall, congrArg Prod.snd hall⟩

end Connection

end MiniServer
