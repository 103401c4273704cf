import MiniServer.Connection.Framing

/-!
# Framing in unbounded arithmetic

`extractOneRequest` adds lengths in `size_t`, and a declared length that is no `unsigned long`
counts as no length at all.  `declared` is the number that the header block really denotes, and
`ExactFraming` is what a framer without these bounds does with it.

`exactFraming_iff` says for which buffers the two are the same: exactly for those whose header
block and declared body have a length below `2 ^ 64` together.
-/

namespace MiniServer

namespace Connection

/-- The number that a header block declares, 0 when it declares none. -/
def declared (headersText : Bytes) : ℕ :=
  let lowered := headersText.map Bytes.toLower
  match Text.find contentLengthKey lowered with
  | none => 0
  | some pos =>
    let rest := Bytes.skipBlanks (lowered.drop (pos + contentLengthKey.length))
    Bytes.value (rest.takeWhile Bytes.isDigit)

/-- A call of `extractOneRequest`: its answer, the text behind the reference and the connection
after it. -/
def extractCall (c : Connection) (rawRequest : Bytes) : Bool × Bytes × Connection :=
  match c.extractOneRequest with
  | none => (false, rawRequest, c)
  | some (raw, c') => (true, raw, c')

/-- The call waits for the header block and the whole declared body and takes exactly these. -/
structure ExactFraming (c : Connection) (rawRequest : Bytes) : Prop where
  succeeds : (c.extractCall rawRequest).1 = true ↔
    ∃ h, Text.find (Bytes.crlf ++ Bytes.crlf) c.readBuf = some h ∧
      h + 4 + declared (c.readBuf.take (h + 4)) ≤ c.readBuf.length
  request : ∀ raw c', c.extractCall rawRequest = (true, raw, c') →
    ∃ h, Text.find (Bytes.crlf ++ Bytes.crlf) c.readBuf = some h ∧
      raw = c.readBuf.take (h + 4 + declared (c.readBuf.take (h + 4))) ∧
      c'.readBuf = c.readBuf.drop (h + 4 + declared (c.readBuf.take (h + 4))) ∧
      raw ≠ [] ∧ c.readBuf.take (h + 4) <+: raw
  unchanged : ∀ raw c', c.extractCall rawRequest = (false, raw, c') → c'.readBuf = c.readBuf

/-! ### The two numbers -/

theorem parseContentLength_eq_declared (s : Bytes) :
    parseContentLength s = if declared s < 2 ^ 64 then declared s else 0 := by
  unfold parseContentLength declared
  cases hfind : Text.find contentLengthKey (s.map Bytes.toLower) with
  | none => simp only [hfind, ite_self]
  | some pos =>
    simp only [hfind]
    split_ifs with hdigits hsmall hsmall
    · rw [hdigits]
      rfl
    · rfl
    · rw [Bytes.stoul, if_pos hsmall]
      rfl
    · rw [Bytes.stoul, if_neg hsmall]
      rfl

/-- The length that the code takes is the exact one, if that is a `size_t`. -/
theorem requestLength_of_small {s : Bytes} {h : ℕ}
    (hfind : Text.find (Bytes.crlf ++ Bytes.crlf) s = some h)
    (hsmall : h + 4 + declared (s.take (h + 4)) < 2 ^ 64) :
    requestLength s = some (h + 4 + declared (s.take (h + 4))) := by
  unfold requestLength
  rw [hfind, Option.map_some, addSize_of_lt (show h + 4 < 2 ^ 64 by omega)]
  dsimp only
  rw [parseContentLength_eq_declared, if_pos (show declared (s.take (h + 4)) < 2 ^ 64 by omega),
    addSize_of_lt hsmall]

/-- Otherwise the code takes a length that the buffer has already. -/
theorem requestLength_of_large {s : Bytes} {h : ℕ}
    (hfind : Text.find (Bytes.crlf ++ Bytes.crlf) s = some h)
    (hlarge : 2 ^ 64 ≤ h + 4 + declared (s.take (h + 4))) :
    ∃ n, requestLength s = some n ∧ n < 2 ^ 64 ∧ n ≤ s.length := by
  have hle : h + 4 ≤ s.length := Text.find_le hfind
  refine ⟨addSize (addSize h 4) (parseContentLength (s.take (addSize h 4))),
    by rw [requestLength, hfind]; rfl, Nat.mod_lt _ (Nat.two_pow_pos 64), ?_⟩
  by_cases hheader : h + 4 < 2 ^ 64
  · rw [addSize_of_lt hheader, parseContentLength_eq_declared]
    unfold addSize
    split_ifs with hdeclared
    · -- the sum wraps, to less than the header block
      omega
    · -- the number is no `unsigned long`
      omega
  · -- such a buffer is longer than every `size_t`
    have hmod := Nat.mod_lt (addSize h 4 + parseContentLength (s.take (addSize h 4)))
      (Nat.two_pow_pos 64)
    unfold addSize at hmod ⊢
    omega

/-! ### Exactness -/

/-- The call succeeds where the length that the code takes is there. -/
theorem extractCall_eq_true_iff {c c' : Connection} {raw rawRequest : Bytes} :
    c.extractCall rawRequest = (true, raw, c') ↔
      ∃ n, requestLength c.readBuf = some n ∧ n ≤ c.readBuf.length ∧ c.readBuf.take n = raw ∧
        c' = { c with readBuf := c.readBuf.drop n } := by
  have hcall : c.extractCall rawRequest = (true, raw, c') ↔
      c.extractOneRequest = some (raw, c') := by
    unfold extractCall
    cases c.extractOneRequest with
    | none => simp
    | some p => simp [Prod.ext_iff]
  rw [hcall, extractOneRequest_eq_some_iff]
  constructor
  · rintro ⟨rest, hcut, rfl⟩
    obtain ⟨n, hn, hle, htake, rfl⟩ := cutRequest_eq_some_iff.1 hcut
    exact ⟨n, hn, hle, htake, rfl⟩
  · rintro ⟨n, hn, hle, htake, rfl⟩
    exact ⟨_, cutRequest_eq_some_iff.2 ⟨n, hn, hle, htake, rfl⟩, rfl⟩

theorem extractCall_eq_false {c c' : Connection} {raw rawRequest : Bytes}
    (h : c.extractCall rawRequest = (false, raw, c')) : c' = c := by
  unfold extractCall at h
  split at h
  · cases h
    rfl
  · cases h

/-- Where the sum wraps, or the number is none, the code takes bytes that are there, but not as
many as are declared. -/
theorem not_exactFraming_of_large {c : Connection} {h : ℕ}
    (hfind : Text.find (Bytes.crlf ++ Bytes.crlf) c.readBuf = some h)
    (hlarge : 2 ^ 64 ≤ h + 4 + declared (c.readBuf.take (h + 4))) (rawRequest : Bytes) :
    ¬ c.ExactFraming rawRequest := by
  intro hexact
  obtain ⟨n, hn, hlt, hle⟩ := requestLength_of_large hfind hlarge
  have hcall : c.extractCall rawRequest = _ := extractCall_eq_true_iff.2 ⟨n, hn, hle, rfl, rfl⟩
  obtain ⟨h₁, hfind₁, hle₁⟩ := hexact.succeeds.1 (by rw [hcall])
  obtain ⟨h₂, hfind₂, hraw, -⟩ := hexact.request _ _ hcall
  obtain rfl : h₁ = h := Option.some.inj (hfind₁.symm.trans hfind)
  obtain rfl : h₂ = h₁ := Option.some.inj (hfind₂.symm.trans hfind₁)
  have hlength := congrArg List.length hraw
  rw [List.length_take, List.length_take] at hlength
  omega

/-- Where the code takes the declared length, it frames exactly. -/
theorem exactFraming_of_length {c : Connection}
    (hlength : ∀ n, requestLength c.readBuf = some n ↔
      ∃ h, Text.find (Bytes.crlf ++ Bytes.crlf) c.readBuf = some h ∧
        h + 4 + declared (c.readBuf.take (h + 4)) = n) (rawRequest : Bytes) :
    c.ExactFraming rawRequest where
  succeeds := by
    constructor
    · intro htrue
      obtain ⟨n, hn, hle, -⟩ := extractCall_eq_true_iff.1 (Prod.ext htrue rfl)
      obtain ⟨h, hfind, rfl⟩ := (hlength n).1 hn
      exact ⟨h, hfind, hle⟩
    · rintro ⟨h, hfind, hle⟩
      rw [extractCall_eq_true_iff.2 ⟨_, (hlength _).2 ⟨h, hfind, rfl⟩, hle, rfl, rfl⟩]
  request := by
    intro raw c' hcall
    obtain ⟨n, hn, hle, rfl, rfl⟩ := extractCall_eq_true_iff.1 hcall
    obtain ⟨h, hfind, rfl⟩ := (hlength n).1 hn
    refine ⟨h, hfind, rfl, rfl, fun hnil => ?_, List.take_prefix_take_left (Nat.le_add_right _ _)⟩
    have hzero := congrArg List.length hnil
    rw [List.length_take, List.length_nil] at hzero
    omega
  unchanged := by
    intro raw c' hcall
    rw [extractCall_eq_false hcall]

/-- **When framing is exact**: for every content of the buffer, the code frames as in unbounded
arithmetic exactly when the header block and the declared body are together shorter than
`2 ^ 64`. -/
theorem exactFraming_iff (c : Connection) (rawRequest : Bytes) :
    c.ExactFraming rawRequest ↔
      ∀ h, Text.find (Bytes.crlf ++ Bytes.crlf) c.readBuf = some h →
        h + 4 + declared (c.readBuf.take (h + 4)) < 2 ^ 64 := by
  constructor
  · intro hexact h hfind
    by_contra hlarge
    exact not_exactFraming_of_large hfind (not_lt.1 hlarge) rawRequest hexact
  · intro hsmall
    refine exactFraming_of_length (fun n => ?_) rawRequest
    cases hfind : Text.find (Bytes.crlf ++ Bytes.crlf) c.readBuf with
    | none => simp [requestLength, hfind]
    | some h =>
      rw [requestLength_of_small hfind (hsmall h hfind)]
      simp

/-- **A huge declared length is no reason to wait.**  `2 ^ 64 - 1` wraps, and the request is cut
without the last byte of its header block; a number with one digit more counts as 0, and what is
sent as the body is the next request. -/
theorem huge_length_cut :
    let wrapped := Bytes.ofString "POST /x HTTP/1.1\r\nContent-Length: 18446744073709551615\r\n\r\n"
    let zero := Bytes.ofString "POST /x HTTP/1.1\r\nContent-Length: 100000000000000000000\r\n\r\n"
    cutRequest wrapped = some (wrapped.dropLast, [10]) ∧
      cutRequest (zero ++ .ofString "GET") = some (zero, .ofString "GET") ∧
      ¬ ExactFraming { fd := 4, peerIp := [], readBuf := wrapped } [] ∧
      ¬ ExactFraming { fd := 4, peerIp := [], readBuf := zero ++ .ofString "GET" } [] := by
  intro wrapped zero
  refine ⟨by decide +kernel, by decide +kernel, fun h => ?_, fun h => ?_⟩
  · obtain ⟨h, hfind, hle⟩ := h.succeeds.1 (by decide +kernel)
    obtain rfl : h = 54 := Option.some.inj (hfind.symm.trans (by decide +kernel))
    exact absurd hle (by decide +kernel)
  · obtain ⟨h, hfind, hle⟩ := h.succeeds.1 (by decide +kernel)
    obtain rfl : h = 55 := Option.some.inj (hfind.symm.trans (by decide +kernel))
    exact absurd hle (by decide +kernel)

end Connection

end MiniServer
