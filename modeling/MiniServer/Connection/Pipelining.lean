import MiniServer.Connection.Framing
import MiniServer.Text.Decimal

/-!
# Pipelined requests

A `Request` is a header block and a body as a client writes them; its fields say what the client
promises of the block.  `extractN_pipelined` says that a buffer of such requests comes apart into
exactly these.
-/

namespace MiniServer

namespace Connection

/-- A request as it is sent. -/
structure Request where
  block : Bytes
  body : Bytes
  /-- The first blank line of the block is its end. -/
  ends : (Text.find (Bytes.crlf ++ Bytes.crlf) block).map (· + 4) = some block.length
  /-- The first mention of the length is followed by optional blanks, a numeral of the length of
  the body and a byte that is not a digit; without mention there is no body. -/
  announces :
    match Text.find contentLengthKey (block.map Bytes.toLower) with
    | none => body = []
    | some pos => ∃ blanks digits b t,
      block.drop (pos + contentLengthKey.length) = blanks ++ digits ++ b :: t ∧
        (∀ a ∈ blanks, a = 32 ∨ a = 9) ∧ Bytes.Decimal digits body.length ∧
        Bytes.isDigit b = false
  small : block.length + body.length < 2 ^ 64

namespace Request

/-- The request on the wire. -/
def bytes (r : Request) : Bytes := r.block ++ r.body

/-- Blanks are kept by lower-casing and skipped in front of a digit. -/
theorem skipBlanks_append {blanks s : Bytes} (hblanks : ∀ a ∈ blanks, a = 32 ∨ a = 9) {b : UInt8}
    (hb : Bytes.isDigit b) :
    Bytes.skipBlanks ((blanks ++ b :: s).map Bytes.toLower) = (b :: s).map Bytes.toLower := by
  have hnot : ¬ (b = 32 ∨ b = 9) := by
    rintro (rfl | rfl) <;> exact absurd hb (by decide)
  unfold Bytes.skipBlanks
  induction blanks with
  | nil =>
    rw [List.nil_append, List.map_cons, Bytes.toLower_of_isDigit hb, List.dropWhile_cons, if_neg]
    simpa using hnot
  | cons a blanks ih =>
    have ha : Bytes.toLower a = 32 ∨ Bytes.toLower a = 9 := by
      rcases hblanks a List.mem_cons_self with rfl | rfl <;> decide
    rw [List.cons_append, List.map_cons, List.dropWhile_cons, if_pos (by simpa using ha)]
    exact ih fun a' ha' => hblanks a' (List.mem_cons_of_mem a ha')

/-- The block announces its body. -/
theorem parseContentLength_block (r : Request) :
    parseContentLength r.block = r.body.length := by
  have hannounces := r.announces
  unfold parseContentLength
  dsimp only
  split
  · rename_i hfind
    rw [hfind] at hannounces
    rw [hannounces]
    rfl
  · rename_i pos hfind
    rw [hfind] at hannounces
    obtain ⟨blanks, digits, b, t, hdrop, hblanks, hdigits, hb⟩ := hannounces
    have hlower : Bytes.isDigit (Bytes.toLower b) = false := by rw [Bytes.isDigit_toLower, hb]
    have hskip : Bytes.skipBlanks
        ((r.block.map Bytes.toLower).drop (pos + contentLengthKey.length)) =
          digits ++ Bytes.toLower b :: t.map Bytes.toLower := by
      rw [← List.map_drop, hdrop, List.append_assoc]
      obtain ⟨d, ds, rfl⟩ := List.exists_cons_of_ne_nil hdigits.nonempty
      rw [List.cons_append, skipBlanks_append hblanks (hdigits.digit d List.mem_cons_self),
        ← List.cons_append, List.map_append, hdigits.map_toLower]
      rfl
    rw [hskip, hdigits.takeWhile_append hlower, if_neg hdigits.nonempty, Bytes.stoul,
      hdigits.value_eq, if_pos]
    · rfl
    · have hsmall := r.small
      omega

/-- The request is cut whole. -/
theorem cutRequest_bytes (r : Request) : cutRequest r.bytes = some (r.bytes, []) := by
  obtain ⟨i, hfind, hi⟩ := Option.map_eq_some_iff.1 r.ends
  have hsmall := r.small
  have hheader : addSize i 4 = r.block.length := by rw [addSize_of_lt (by omega), hi]
  have hlength : requestLength r.bytes = some r.bytes.length := by
    unfold requestLength bytes
    rw [Text.find_append hfind, Option.map_some]
    dsimp only
    rw [hheader, List.take_left, parseContentLength_block, addSize_of_lt hsmall,
      List.length_append]
  exact cutRequest_eq_some_iff.2 ⟨_, hlength, Nat.le_refl _, List.take_length, List.drop_length⟩

end Request

/-- **Pipelined requests come apart again.**  When the buffer holds requests and behind them bytes
without a blank line, repeated extraction returns exactly these requests in order, then fails and
leaves exactly the trailing bytes, whatever the bodies contain. -/
theorem extractN_pipelined (c : Connection) (rs : List Request) {trailing : Bytes}
    (htrailing : Text.find (Bytes.crlf ++ Bytes.crlf) trailing = none)
    (hbuf : c.readBuf = (rs.map Request.bytes).flatten ++ trailing) (n : ℕ) :
    extractN (rs.length + n) c = (rs.map Request.bytes, { c with readBuf := trailing }) ∧
      ({ c with readBuf := trailing } : Connection).extractOneRequest = none := by
  have hcuts : framer.Cuts c.readBuf (rs.map Request.bytes) trailing := by
    rw [hbuf]
    refine .of_whole (fun raw hraw => ?_) trailing
    obtain ⟨r, -, rfl⟩ := List.mem_map.1 hraw
    exact r.cutRequest_bytes
  have hnone : framer.cut trailing = none := by
    show cutRequest trailing = none
    unfold cutRequest requestLength
    rw [htrailing]
    rfl
  refine ⟨?_, extractOneRequest_eq_none_iff.2 hnone⟩
  rw [extractN_eq_cutN, hcuts.cutN_eq hnone (by rw [List.length_map]; exact Nat.le_add_right _ _)]

/-- A request whose body looks like a header block. -/
def sampleRequest : Request where
  block := .ofString "POST /login HTTP/1.1\r\nContent-Length: 22\r\n\r\n"
  body := .ofString "Content-Length: 9\r\n\r\nx"
  ends := by decide +kernel
  announces := ⟨[32], .ofNat 22, 13, [10, 13, 10], by decide +kernel, by simp, .ofNat 22,
    by decide⟩
  small := by decide

theorem extractN_pipelined_two :
    let c : Connection := {
      fd := 5
      peerIp := []
      readBuf := sampleRequest.bytes ++ (sampleRequest.bytes ++ .ofString "GET") }
    extractN 3 c = ([sampleRequest.bytes, sampleRequest.bytes],
      { c with readBuf := .ofString "GET" }) := by
  intro c
  have hbuf : c.readBuf =
      ([sampleRequest, sampleRequest].map Request.bytes).flatten ++ .ofString "GET" := by
    simp [c]
  exact (extractN_pipelined c [sampleRequest, sampleRequest] (by decide) hbuf 1).1

end Connection

end MiniServer
