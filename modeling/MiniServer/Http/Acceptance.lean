import Mathlib.Data.List.TakeDrop
import MiniServer.Connection.Framing
import MiniServer.Http.HeaderLines

/-!
# The framer and the parser agree on where a request ends

`extractOneRequest` searches for the first `CRLF CRLF`, `parse` walks from line to line and stops at
the first empty one.  A raw request that was cut has a header block (`HeaderBlock.exists_of_blank`),
and its blank line is the one that was found (`HeaderBlock.find_blank`); so `parse` never runs out
of data, and what it keeps as the body is what was declared.
-/

namespace MiniServer

open Text (HeaderBlock blockText)

namespace HttpRequest

/-! ### The request line -/

/-- A request line with one of the four methods. -/
def ValidRequestLine (line : Bytes) : Prop :=
  ∃ method target version final : Bytes,
    line = method ++ 32 :: (target ++ (.ofString " HTTP/" ++ (version ++ final))) ∧
      (methodOf method).isSome ∧ target ≠ [] ∧ 32 ∉ target ∧ version ≠ [] ∧
      (∀ b ∈ version, isVersionByte b) ∧ (final = [] ∨ final = [13])

/-- A run of a class that ends in front of a byte outside it. -/
theorem span_append {p : UInt8 → Bool} {a t : Bytes} (ha : ∀ b ∈ a, p b)
    (ht : ∀ b ∈ t.head?, p b = false) : (a ++ t).span p = (a, t) := by
  rw [List.span_eq_takeWhile_dropWhile, List.takeWhile_append_of_pos ha,
    List.dropWhile_append_of_pos ha]
  cases t with
  | nil => simp
  | cons b t =>
    have hb := ht b rfl
    simp [hb]

theorem span_append_eq {p : UInt8 → Bool} {a t s : Bytes} (h : s.span p = (a, t)) :
    a ++ t = s ∧ ∀ b ∈ a, p b := by
  rw [List.span_eq_takeWhile_dropWhile, Prod.mk.injEq] at h
  obtain ⟨rfl, rfl⟩ := h
  exact ⟨List.takeWhile_append_dropWhile, fun b => List.mem_takeWhile_imp⟩

/-- The four methods are words of capital letters. -/
theorem isUpper_of_methodOf {name : Bytes} (h : (methodOf name).isSome) :
    name ≠ [] ∧ ∀ b ∈ name, isUpper b := by
  unfold methodOf at h
  split_ifs at h with hget hpost hput hdelete
  · subst hget; decide +kernel
  · subst hpost; decide +kernel
  · subst hput; decide +kernel
  · subst hdelete; decide +kernel
  · cases h

theorem matchRequestLine_of_valid {line method target version final : Bytes}
    (heq : line = method ++ 32 :: (target ++ (.ofString " HTTP/" ++ (version ++ final))))
    (hmethod : method ≠ [] ∧ ∀ b ∈ method, isUpper b) (htarget : target ≠ []) (hblank : 32 ∉ target)
    (hversion : version ≠ []) (hclass : ∀ b ∈ version, isVersionByte b)
    (hfinal : final = [] ∨ final = [13]) :
    matchRequestLine line = some (method, target, version) := by
  have hspan₁ : line.span isUpper =
      (method, 32 :: (target ++ (.ofString " HTTP/" ++ (version ++ final)))) := by
    rw [heq]
    exact span_append hmethod.2 (by rintro b ⟨⟩; decide)
  have hspan₂ : (target ++ (Bytes.ofString " HTTP/" ++ (version ++ final))).span (· ≠ 32) =
      (target, .ofString " HTTP/" ++ (version ++ final)) := by
    refine span_append (fun b hb => ?_) (by rintro b ⟨⟩; decide)
    rw [decide_eq_true_eq]
    rintro rfl
    exact hblank hb
  have hspan₃ : (version ++ final).span isVersionByte = (version, final) := by
    refine span_append hclass ?_
    rcases hfinal with rfl | rfl
    · rintro b ⟨⟩
    · rintro b ⟨⟩; decide
  have hdrop : ∀ s, (Bytes.ofString " HTTP/" ++ s).drop 6 = s := fun s => rfl
  have htake : ∀ s, (Bytes.ofString " HTTP/" ++ s).take 6 = Bytes.ofString " HTTP/" := fun s => rfl
  unfold matchRequestLine
  rw [hspan₁]
  dsimp only
  rw [hspan₂]
  dsimp only
  rw [hdrop, htake, hspan₃]
  exact if_pos ⟨hmethod.1, rfl, htarget, rfl, hversion, hfinal⟩

theorem matchRequestLine_eq_some {line method target version : Bytes}
    (h : matchRequestLine line = some (method, target, version)) :
    ∃ final, line = method ++ 32 :: (target ++ (.ofString " HTTP/" ++ (version ++ final))) ∧
      target ≠ [] ∧ 32 ∉ target ∧ version ≠ [] ∧ (∀ b ∈ version, isVersionByte b) ∧
      (final = [] ∨ final = [13]) := by
  unfold matchRequestLine at h
  obtain ⟨m, rest, hspan₁⟩ : ∃ m rest, line.span isUpper = (m, rest) := ⟨_, _, rfl⟩
  rw [hspan₁] at h
  cases rest with
  | nil => cases h
  | cons sp rest =>
    obtain ⟨t, rest', hspan₂⟩ : ∃ t rest', rest.span (· ≠ 32) = (t, rest') := ⟨_, _, rfl⟩
    obtain ⟨v, final, hspan₃⟩ : ∃ v final, (rest'.drop 6).span isVersionByte = (v, final) :=
      ⟨_, _, rfl⟩
    simp only [hspan₂, hspan₃] at h
    split_ifs at h with hall
    obtain ⟨-, rfl, htarget, hprefix, hversion, hfinal⟩ := hall
    cases h
    obtain ⟨hline, -⟩ := span_append_eq hspan₁
    obtain ⟨hrest, hblank⟩ := span_append_eq hspan₂
    obtain ⟨hrest', hclass⟩ := span_append_eq hspan₃
    refine ⟨final, ?_, htarget, fun hmem => ?_, hversion, hclass, hfinal⟩
    · rw [hrest', ← hprefix, List.take_append_drop, hrest, hline]
    · exact absurd (hblank 32 hmem) (by decide)

theorem parseRequestLine_iff (r : HttpRequest) (line : Bytes) :
    (r.parseRequestLine line).1 = true ↔ ValidRequestLine line := by
  unfold parseRequestLine
  constructor
  · intro h
    cases hmatch : matchRequestLine line with
    | none => simp [hmatch] at h
    | some p =>
      obtain ⟨method, target, version⟩ := p
      obtain ⟨final, heq, hrest⟩ := matchRequestLine_eq_some hmatch
      refine ⟨method, target, version, final, heq, ?_, hrest⟩
      cases hm : methodOf method with
      | none => simp [hmatch, hm] at h
      | some _ => rfl
  · rintro ⟨method, target, version, final, heq, hm, htarget, hblank, hversion, hclass, hfinal⟩
    rw [matchRequestLine_of_valid heq (isUpper_of_methodOf hm) htarget hblank hversion hclass
      hfinal]
    obtain ⟨m, hm⟩ := Option.isSome_iff_exists.1 hm
    simp [hm]

/-! ### The whole text -/

theorem parseLoop_of_headerBlock {n : ℕ} {r : HttpRequest} {data rest : Bytes}
    {lines : List Bytes} (hblock : HeaderBlock 13 10 data lines rest)
    (hstate : r.state = .headers) (hn : data.length ≤ n) (hcolon : ∀ l ∈ lines, 58 ∈ l) :
    (parseLoop n r data).1 = true := by
  induction hblock generalizing n r with
  | blank body =>
    obtain ⟨n, rfl⟩ := Nat.exists_eq_succ_of_ne_zero (show n ≠ 0 by rintro rfl; simp at hn)
    have hcut : Text.cutLine 13 10 (13 :: 10 :: body) = some ([], body) :=
      (Text.cutLine_eq_some_iff (by decide)).2 ⟨rfl, rfl⟩
    by_cases hget : r.method = .get <;> simp [parseLoop, hcut, hstate, hget]
  | @line l s body ls hl hline hblock ih =>
    obtain ⟨n, rfl⟩ := Nat.exists_eq_succ_of_ne_zero (show n ≠ 0 by rintro rfl; simp at hn)
    have hcut : Text.cutLine 13 10 (l ++ 13 :: 10 :: s) = some (l, s) :=
      (Text.cutLine_eq_some_iff (by decide)).2 ⟨rfl, hline⟩
    have hs : s.length ≤ n := by
      rw [List.length_append, List.length_cons, List.length_cons] at hn
      omega
    cases hsplit : splitHeader l with
    | none =>
      rw [splitHeader, Option.map_eq_none_iff, Text.find_singleton_eq_none_iff] at hsplit
      exact absurd (hcolon l List.mem_cons_self) hsplit
    | some kv =>
      have hrest := ih (n := n) (r := { r with
        headers := (kv.1, kv.2) :: r.headers
        keepAlive := connectionFlag r.keepAlive kv.1 kv.2 }) hstate hs
        fun l' hl' => hcolon l' (List.mem_cons_of_mem l hl')
      simpa [parseLoop, hcut, hstate, hl, parseHeader, hsplit] using hrest

/-- The lines of a header block make a request. -/
def WellFormed (lines : List Bytes) : Prop :=
  ValidRequestLine (lines.headD []) ∧ ∀ l ∈ lines.tail, 58 ∈ l

/-- A new object accepts a text exactly when its lines are well formed. -/
theorem parse_iff {data rest : Bytes} {lines : List Bytes}
    (hblock : HeaderBlock 13 10 data lines rest) :
    (({} : HttpRequest).parse data).1 = true ↔ WellFormed lines := by
  constructor
  · intro h
    have hok : ({} : HttpRequest).parse data = (true, (({} : HttpRequest).parse data).2) :=
      Prod.ext h rfl
    obtain ⟨line, lines', hs, rest', r, hblock', hline, hmap, -⟩ := parse_eq_true hok
    obtain ⟨rfl, rfl⟩ := hblock.unique (by decide) hblock'
    refine ⟨(parseRequestLine_iff {} line).1 (by rw [hline]), fun l hl => ?_⟩
    by_contra hcolon
    -- a line without colon makes `parse` fail
    have hnone : splitHeader l = none := by
      rw [splitHeader, Text.find_singleton_eq_none_iff.2 hcolon]
      rfl
    have hmem : none ∈ lines'.map splitHeader := List.mem_map.2 ⟨l, hl, hnone⟩
    rw [hmap] at hmem
    obtain ⟨kv, -, hkv⟩ := List.mem_map.1 hmem
    cases hkv
  · rintro ⟨hvalid, hcolon⟩
    have hline := (parseRequestLine_iff {} (lines.headD [])).2 hvalid
    cases hblock with
    | blank body => exact absurd hline (by decide)
    | @line l s _ ls hl hisline hblock =>
      have hcut : Text.cutLine 13 10 (l ++ 13 :: 10 :: s) = some (l, s) :=
        (Text.cutLine_eq_some_iff (by decide)).2 ⟨rfl, hisline⟩
      obtain ⟨r, hr⟩ : ∃ r, parseRequestLine {} l = (true, r) := ⟨_, Prod.ext hline rfl⟩
      have hlength : (l ++ 13 :: 10 :: s).length = l.length + s.length + 1 + 1 := by
        simp
        omega
      rw [parse, if_neg (by simp), hlength, parseLoop, hcut]
      simp only [hr]
      exact parseLoop_of_headerBlock hblock rfl (by omega) hcolon

theorem parseRequestLine_body (r : HttpRequest) (line : Bytes) :
    (r.parseRequestLine line).2.body = r.body := by
  unfold parseRequestLine
  cases matchRequestLine line with
  | none => rfl
  | some p =>
    dsimp only
    cases methodOf p.1 <;> rfl

theorem addHeaders_body (r : HttpRequest) (hs : List (Bytes × Bytes)) :
    (r.addHeaders hs).body = r.body := by
  rw [addHeaders_eq]

theorem finish_body {r : HttpRequest} (hbody : r.body = []) (rest : Bytes) :
    (r.finish rest).body = if (r.finish rest).method = .get then [] else rest := by
  have hmethod : (r.finish rest).method = r.method := by
    unfold finish parseBody
    split_ifs <;> rfl
  rw [hmethod]
  unfold finish parseBody
  split_ifs with hget hrest
  · exact hbody
  · rfl
  · exact hbody.trans (not_ne_iff.1 hrest).symm

/-- What an accepted text leaves in the body. -/
theorem body_of_parse {data rest : Bytes} {lines : List Bytes}
    (hblock : HeaderBlock 13 10 data lines rest)
    (h : (({} : HttpRequest).parse data).1 = true) :
    (({} : HttpRequest).parse data).2.body =
      if (({} : HttpRequest).parse data).2.method = .get then [] else rest := by
  have hok : ({} : HttpRequest).parse data = (true, (({} : HttpRequest).parse data).2) :=
    Prod.ext h rfl
  obtain ⟨line, lines', hs, rest', r, hblock', hline, -, hreq⟩ := parse_eq_true hok
  obtain ⟨-, rfl⟩ := hblock.unique (by decide) hblock'
  have hbody : (addHeaders { r with state := .headers } hs).body = [] := by
    rw [addHeaders_body]
    have hr := parseRequestLine_body {} line
    rw [hline] at hr
    exact hr
  rw [hreq]
  exact finish_body hbody rest

/-! ### The path -/

/-- The target as it stands in the first line of a text. -/
def target (data : Bytes) : Bytes :=
  match (Text.cutLine 13 10 data).bind fun p => matchRequestLine p.1 with
  | some (_, target, _) => target
  | none => []

theorem addHeaders_path (r : HttpRequest) (hs : List (Bytes × Bytes)) :
    (r.addHeaders hs).path = r.path := by
  rw [addHeaders_eq]

theorem finish_path (r : HttpRequest) (rest : Bytes) : (r.finish rest).path = r.path := by
  unfold finish parseBody
  split_ifs <;> rfl

/-- The path of an accepted text is its target, decoded. -/
theorem path_of_parse {data : Bytes} (h : (({} : HttpRequest).parse data).1 = true) :
    (({} : HttpRequest).parse data).2.path = urlDecode (target data) := by
  have hok : ({} : HttpRequest).parse data = (true, (({} : HttpRequest).parse data).2) :=
    Prod.ext h rfl
  obtain ⟨line, lines, hs, rest, r, hblock, hline, -, hreq⟩ := parse_eq_true hok
  obtain ⟨tail, hcut, -, -⟩ := hblock.cutLine_eq (by decide)
  rw [hreq, finish_path, addHeaders_path]
  unfold target
  rw [hcut, Option.bind_some, List.headD_cons]
  unfold parseRequestLine at hline
  split at hline
  · cases hline
  · rename_i method target version hmatch
    rw [hmatch]
    split at hline
    · cases hline
    · cases hline
      rfl

end HttpRequest

/-! ### The fixed answer -/

/-- Only a request that does not parse is answered with the fixed text. -/
theorem Site.reply_bytes_eq_badRequest_iff (site : Site Id) (raw : Bytes) :
    (site.reply raw).bytes = badRequest ↔ (({} : HttpRequest).parse raw).1 = false := by
  unfold reply answer
  split
  · rename_i hparse
    rw [hparse]
    exact iff_of_true rfl rfl
  · rename_i request hparse
    rw [hparse]
    refine iff_of_false (fun heq => ?_) Bool.noConfusion
    obtain ⟨code, contentType, extra, body, hct, hextra, hbytes⟩ :=
      site.exists_lines_answerRequest request
    have hblock := HttpResponse.headerBlock_responseLines code hct body.length request.keepAlive
      hextra body
    rw [← hbytes, show (Id.run (site.answerRequest request)).bytes = badRequest from heq] at hblock
    -- the second line of a built response names the server
    have hlines := (hblock.unique (by decide) headerBlock_badRequest).1
    have hserver : some (HttpResponse.headerText "Server" (.ofString "MiniServer/1.0")) =
        badRequestLines[1]? := congrArg (fun l => l[1]?) hlines
    exact absurd hserver (by decide)

/-! ### A request that was cut -/

/-- **The framer and the parser agree on where a request ends.**  A cut request has a header block;
it is refused, with the fixed text, exactly when its first line is not a request line with one of
the four methods or another line has no colon, and what is accepted has exactly the declared bytes
as its body, none for `GET`. -/
theorem parse_of_cut {buf raw rest : Bytes} {headerEnd : ℕ}
    (hcut : Connection.cutRequest buf = some (raw, rest))
    (hfind : Text.find (Bytes.crlf ++ Bytes.crlf) buf = some headerEnd)
    (hsize : headerEnd + 4 + Connection.parseContentLength (buf.take (headerEnd + 4)) < 2 ^ 64) :
    let declared := Connection.parseContentLength (buf.take (headerEnd + 4))
    let parsed := ({} : HttpRequest).parse raw
    ∃ lines body, HeaderBlock 13 10 raw lines body ∧
      (parsed.1 = true ↔ HttpRequest.WellFormed lines) ∧
      (parsed.1 = true → body.length = declared ∧ raw.length = headerEnd + 4 + declared ∧
        parsed.2.body =
          if parsed.2.method = .get then [] else raw.drop (raw.length - declared)) ∧
      ∀ site : Site Id, (site.reply raw).bytes = badRequest ↔ ¬ HttpRequest.WellFormed lines := by
  intro declared parsed
  obtain ⟨n, hn, hle, htake, -⟩ := Connection.cutRequest_eq_some_iff.1 hcut
  have hbuf : n = headerEnd + 4 + declared := by
    unfold Connection.requestLength at hn
    rw [hfind, Option.map_some, Option.some.injEq] at hn
    dsimp only at hn
    rw [addSize_of_lt (show headerEnd + 4 < 2 ^ 64 by omega), addSize_of_lt hsize] at hn
    exact hn.symm
  have hlength : raw.length = headerEnd + 4 + declared := by
    rw [← htake, List.length_take, hbuf]
    omega
  -- the blank line that was found lies in the part that was cut
  have hblank : Text.find (Bytes.crlf ++ Bytes.crlf) raw = some headerEnd := by
    obtain ⟨hocc, hmin⟩ := Text.find_eq_some_iff.1 hfind
    rw [← List.take_append_drop n buf, htake] at hocc hmin
    refine Text.find_eq_some_iff.2 ⟨hocc.of_append ?_, fun j hj hj' => hmin j hj (hj'.append _)⟩
    rw [hlength]
    exact Nat.le_add_right _ _
  obtain ⟨lines, body, hblock⟩ := HeaderBlock.exists_of_blank (by decide)
    (show Text.find [13, 10, 13, 10] raw ≠ none by
      rw [show [13, 10, 13, 10] = Bytes.crlf ++ Bytes.crlf from rfl, hblank]; simp)
  have hiff := HttpRequest.parse_iff hblock
  refine ⟨lines, body, hblock, hiff, fun hok => ?_, fun site => ?_⟩
  · have hne : lines ≠ [] := by
      rintro rfl
      exact absurd ((HttpRequest.parseRequestLine_iff {} []).2 (hiff.1 hok).1) (by decide)
    obtain ⟨i, hi, hlen⟩ := hblock.find_blank (by decide) hne
    obtain rfl : headerEnd = i := Option.some.inj (hblank.symm.trans hi)
    have hraw := hblock.eq_append
    have hbody : body.length = declared := by
      rw [hraw, List.length_append] at hlength
      omega
    refine ⟨hbody, hlength, ?_⟩
    rw [HttpRequest.body_of_parse hblock hok]
    congr 1
    have hdrop : raw.length - declared = (blockText 13 10 lines).length := by omega
    rw [hdrop, hraw, List.drop_left]
  · rw [site.reply_bytes_eq_badRequest_iff, ← hiff, Bool.not_eq_true]

/-- A `POST` with two bytes of body, and the next request behind it. -/
theorem parse_of_cut_post :
    let raw := Bytes.ofString "POST /login HTTP/1.1\r\nContent-Length: 2\r\n\r\nab"
    ∃ lines body, HeaderBlock 13 10 raw lines body ∧ body.length = 2 ∧
      (({} : HttpRequest).parse raw).2.body = .ofString "ab" := by
  intro raw
  have hcut : Connection.cutRequest (raw ++ .ofString "GET") = some (raw, .ofString "GET") := by
    decide
  have hfind : Text.find (Bytes.crlf ++ Bytes.crlf) (raw ++ Bytes.ofString "GET") = some 39 := by
    decide
  obtain ⟨lines, body, hblock, -, hbody, -⟩ := parse_of_cut hcut hfind (by decide)
  obtain ⟨hlength, -, hparsed⟩ := hbody (by decide)
  exact ⟨lines, body, hblock, hlength.trans (by decide), hparsed.trans (by decide)⟩

/-- **The router refuses some well-formed requests with 400.** -/
theorem wellFormed_answered_400 :
    let raw := Bytes.ofString "POST /register HTTP/1.1\r\n\r\n"
    Connection.cutRequest raw = some (raw, []) ∧ (({} : HttpRequest).parse raw).1 = true ∧
      (Site.empty.reply raw).statusCode = 400 := by
  decide

end MiniServer
