import MiniServer.Http.Request
import MiniServer.Http.Response
import MiniServer.Text.Path

/-!
# Which file names are tried

`prepare` and `build` refuse a path that contains `".."` and otherwise try one name, the root
followed by the path or by `/index.html`.  Nothing makes the path start with a slash: a request
target may begin with any byte but a space, so that `webroot` and the target `_private/key` give
the name `webroot_private/key`.

`staysUnderRoot_iff` says for which decoded paths every name that is tried lies inside the root.
-/

namespace MiniServer

namespace HttpResponse

open MiniServer.Path (Inside StaysInside)

/-- A file system that remembers the names it was asked for. -/
def logged (files : Bytes → Option Bytes) : OpenFile (StateM (List Bytes)) :=
  fun name => do
    modify (· ++ [name])
    return files name

/-- The names that a program with a logged file system tries. -/
def namesTried {α : Type} (program : StateM (List Bytes) α) : List Bytes := (program.run []).2

/-- `name` lies in the directory `htmlRoot`. -/
abbrev UnderRoot (htmlRoot name : Bytes) : Prop := Inside (47 : UInt8) 46 (Bytes.cstr htmlRoot) name

/-- The bytes of a name that follow the root, up to the first NUL. -/
def suffix (htmlRoot path : Bytes) : Bytes :=
  if 0 ∈ htmlRoot then []
  else Bytes.cstr (if isIndex path then .ofString "/index.html" else path)

/-- The decoded path is refused, or what follows the root does not leave it. -/
def StaysUnderRoot (htmlRoot path : Bytes) : Prop :=
  hasDots path ∨ StaysInside (47 : UInt8) 46 (Bytes.cstr htmlRoot) (suffix htmlRoot path)

instance (htmlRoot path : Bytes) : Decidable (StaysUnderRoot htmlRoot path) :=
  inferInstanceAs (Decidable (_ ∨ _))

/-! ### The one name that is tried -/

/-- The name of the file for a path that is not refused. -/
def fileName (htmlRoot path : Bytes) : Bytes :=
  Bytes.cstr (if isIndex path then htmlRoot ++ .ofString "/index.html" else htmlRoot ++ path)

theorem namesTried_prepare (files : Bytes → Option Bytes) (path htmlRoot : Bytes)
    (isKeepAlive : Bool) :
    namesTried (prepare (logged files) path isKeepAlive htmlRoot) =
      if hasDots path then [] else [fileName htmlRoot path] := by
  unfold prepare prepareBody MappedFile.open logged fileName
  cases hasDots path with
  | true => rfl
  | false =>
    cases isIndex path with
    | true =>
      simp only [if_true]
      generalize Bytes.cstr (htmlRoot ++ .ofString "/index.html") = name
      cases files name <;> rfl
    | false =>
      simp only [Bool.false_eq_true, if_false]
      generalize Bytes.cstr (htmlRoot ++ path) = name
      cases files name <;> rfl

theorem namesTried_build (files : Bytes → Option Bytes) (r : HttpResponse)
    (path htmlRoot : Bytes) (isKeepAlive : Bool) :
    namesTried (build (logged files) r path isKeepAlive htmlRoot) =
      if hasDots path then [] else [fileName htmlRoot path] := by
  unfold build buildBody readFileContent logged fileName
  cases hasDots path with
  | true => rfl
  | false =>
    cases isIndex path with
    | true =>
      simp only [if_true]
      generalize Bytes.cstr (htmlRoot ++ .ofString "/index.html") = name
      cases files name <;> rfl
    | false =>
      simp only [Bool.false_eq_true, if_false]
      generalize Bytes.cstr (htmlRoot ++ path) = name
      cases files name <;> rfl

/-- The name is the root, read up to its first NUL, and the suffix. -/
theorem fileName_eq (htmlRoot path : Bytes) :
    fileName htmlRoot path = Bytes.cstr htmlRoot ++ suffix htmlRoot path := by
  have happend : ∀ s : Bytes, Bytes.cstr (htmlRoot ++ s) =
      Bytes.cstr htmlRoot ++ if 0 ∈ htmlRoot then [] else Bytes.cstr s := by
    intro s
    unfold Bytes.cstr
    by_cases hnul : 0 ∈ htmlRoot
    · rw [if_pos hnul, List.append_nil, List.takeWhile_append, if_neg]
      intro hlen
      have hall := List.takeWhile_eq_self_iff.1
        (List.IsPrefix.eq_of_length (List.takeWhile_prefix _) hlen)
      simpa using hall 0 hnul
    · have hall : ∀ b ∈ htmlRoot, decide (b ≠ 0) = true := by
        intro b hb
        exact decide_eq_true fun h0 => hnul (h0 ▸ hb)
      rw [if_neg hnul, List.takeWhile_append_of_pos hall, List.takeWhile_eq_self_iff.2 hall]
  unfold fileName suffix
  split_ifs with hindex hnul <;> simp [*]

/-- Two dots in what is tried are two dots in the path. -/
theorem not_dots_suffix {htmlRoot path : Bytes} (h : ¬ hasDots path) :
    ¬ [46, 46] <:+: suffix htmlRoot path := by
  have hpath : ¬ [46, 46] <:+: path := by
    rintro ⟨a, b, rfl⟩
    have hnone : Text.find [46, 46] (a ++ [46, 46] ++ b) = none := by
      simpa [hasDots] using h
    refine Text.find_eq_none_iff.1 hnone a.length ⟨by simp, ?_⟩
    simp
  unfold suffix
  split_ifs with hnul hindex
  · simp
  · decide
  · exact fun hwithin => hpath (hwithin.trans (List.takeWhile_prefix _).isInfix)

/-- **Which static names lie under the root**: for every root, every decoded target and every file
system, the names that `prepare` and `build` try lie inside the root exactly when the target
is refused or its suffix stays inside. -/
theorem staysUnderRoot_iff (files : Bytes → Option Bytes) (r : HttpResponse)
    (htmlRoot target : Bytes) (isKeepAlive : Bool) :
    let path := HttpRequest.urlDecode target
    (∀ name ∈ namesTried (prepare (logged files) path isKeepAlive htmlRoot) ++
        namesTried (build (logged files) r path isKeepAlive htmlRoot), UnderRoot htmlRoot name) ↔
      StaysUnderRoot htmlRoot path := by
  intro path
  rw [namesTried_prepare, namesTried_build]
  unfold StaysUnderRoot
  by_cases hdots : hasDots path
  · simp [hdots]
  · have hinside : UnderRoot htmlRoot (fileName htmlRoot path) ↔
        StaysInside (47 : UInt8) 46 (Bytes.cstr htmlRoot) (suffix htmlRoot path) := by
      rw [fileName_eq]
      exact Path.inside_append_iff (by decide) (not_dots_suffix hdots)
    simp [hdots, hinside]

/-- **A target that does not start with a slash leaves the root.**  The request is accepted and its
file is looked for in `webroot_private`. -/
theorem leaves_root :
    let raw := Bytes.ofString "GET _private/secret HTTP/1.1\r\n\r\n"
    let req := (({} : HttpRequest).parse raw).2
    ({} : HttpRequest).parse raw = (true, req) ∧
      namesTried (prepare (logged fun _ => none) req.path true (.ofString "webroot")) =
        [Bytes.ofString "webroot_private/secret"] ∧
      ¬ UnderRoot (.ofString "webroot") (.ofString "webroot_private/secret") := by
  refine ⟨by decide, by decide, fun h => ?_⟩
  have hstays := Path.Inside.staysInside (by decide)
    (show Inside 47 46 (Bytes.cstr (.ofString "webroot"))
      (Bytes.cstr (.ofString "webroot") ++ Bytes.ofString "_private/secret") from h)
  revert hstays
  decide

end HttpResponse

end MiniServer
