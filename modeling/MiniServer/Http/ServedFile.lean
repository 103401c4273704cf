import MiniServer.Http.StaticRoot

/-!
# Which file is served, and with which type

`prepare` opens a file under the part of its name in front of the first NUL, and looks the content
type up under the whole name.  The two are one name exactly where the root and the decoded path
hold no NUL (`servedAsNamed_iff`); `served_under_other_type` is a page that a client gets as an
image.
-/

namespace MiniServer

namespace HttpResponse

section Prepared

variable (files : Bytes → Option Bytes) (htmlRoot : Bytes) (isKeepAlive : Bool)

/-- The response to a decoded path, with the names that were opened for it. -/
def served (path : Bytes) : PreparedResponse × List Bytes :=
  (prepare (logged files) path isKeepAlive htmlRoot).run []

/-- The answer is a file: the one that `htmlRoot` and the path name, with the type that belongs to
the name under which it was opened. -/
structure ServedAsNamed (path file : Bytes) : Prop where
  name : (served files htmlRoot isKeepAlive path).2 = [htmlRoot ++ path]
  content : ∀ name ∈ (served files htmlRoot isKeepAlive path).2, files name = some file
  type : ∀ name ∈ (served files htmlRoot isKeepAlive path).2,
    (served files htmlRoot isKeepAlive path).1.header =
      buildHeader 200 (getMimeType name) file.length isKeepAlive

variable {files htmlRoot isKeepAlive} {path file : Bytes}

theorem served_some (hindex : isIndex path = false) (hdots : hasDots path = false)
    (hname : files (Bytes.cstr (htmlRoot ++ path)) = some file) :
    served files htmlRoot isKeepAlive path =
      ({ statusCode := 200, file := some file
         header := buildHeader 200 (getMimeType (htmlRoot ++ path)) file.length isKeepAlive },
        [Bytes.cstr (htmlRoot ++ path)]) := by
  unfold served prepare prepareBody MappedFile.open logged
  rw [hindex, hdots]
  simp only [Bool.false_eq_true, if_false]
  rw [hname]
  rfl

theorem served_none (hindex : isIndex path = false)
    (hname : files (Bytes.cstr (htmlRoot ++ path)) = none) :
    (served files htmlRoot isKeepAlive path).1.file = none := by
  unfold served prepare prepareBody MappedFile.open logged
  rw [hindex]
  cases hasDots path with
  | true => rfl
  | false =>
    simp only [Bool.false_eq_true, if_false]
    rw [hname]
    rfl

theorem served_dots (hdots : hasDots path = true) :
    (served files htmlRoot isKeepAlive path).1.file = none := by
  unfold served prepare prepareBody
  rw [hdots]
  rfl

/-- A file is opened under its C string and typed under its whole name. -/
theorem served_of_file (hindex : isIndex path = false)
    (hfile : (served files htmlRoot isKeepAlive path).1.file = some file) :
    files (Bytes.cstr (htmlRoot ++ path)) = some file ∧
      served files htmlRoot isKeepAlive path =
        ({ statusCode := 200, file := some file
           header := buildHeader 200 (getMimeType (htmlRoot ++ path)) file.length isKeepAlive },
          [Bytes.cstr (htmlRoot ++ path)]) := by
  cases hdots : hasDots path with
  | true =>
    rw [served_dots hdots] at hfile
    cases hfile
  | false =>
    cases hname : files (Bytes.cstr (htmlRoot ++ path)) with
    | none =>
      rw [served_none hindex hname] at hfile
      cases hfile
    | some file' =>
      have heq : served files htmlRoot isKeepAlive path = _ := served_some hindex hdots hname
      rw [heq] at hfile
      cases hfile
      exact ⟨rfl, heq⟩

/-- **The file that is served is the one named, with its own type, exactly where the root and the
decoded path hold no NUL**; two such paths are then never answered with one file. -/
theorem servedAsNamed_iff (target : Bytes) (hindex : isIndex (HttpRequest.urlDecode target) = false)
    (hfile : (served files htmlRoot isKeepAlive (HttpRequest.urlDecode target)).1.file =
      some file) :
    (ServedAsNamed files htmlRoot isKeepAlive (HttpRequest.urlDecode target) file ↔
        0 ∉ htmlRoot ++ HttpRequest.urlDecode target) ∧
      ∀ target' file', isIndex (HttpRequest.urlDecode target') = false →
        (served files htmlRoot isKeepAlive (HttpRequest.urlDecode target')).1.file = some file' →
        0 ∉ htmlRoot ++ HttpRequest.urlDecode target →
        0 ∉ htmlRoot ++ HttpRequest.urlDecode target' →
        (served files htmlRoot isKeepAlive (HttpRequest.urlDecode target')).2 =
          (served files htmlRoot isKeepAlive (HttpRequest.urlDecode target)).2 →
        HttpRequest.urlDecode target' = HttpRequest.urlDecode target := by
  generalize HttpRequest.urlDecode target = path at *
  obtain ⟨hname, heq⟩ := served_of_file hindex hfile
  constructor
  · constructor
    · intro h
      have hnames := h.name
      rw [heq] at hnames
      exact Bytes.cstr_eq_self_iff.1 (List.cons.inj hnames).1
    · intro hnul
      rw [Bytes.cstr_eq_self_iff.2 hnul] at hname heq
      constructor
      · rw [heq]
      · rw [heq]
        exact List.forall_mem_singleton.2 hname
      · rw [heq]
        exact List.forall_mem_singleton.2 rfl
  · intro target' file' hindex' hfile' hnul hnul' hnames
    generalize HttpRequest.urlDecode target' = path' at *
    obtain ⟨-, heq'⟩ := served_of_file hindex' hfile'
    rw [heq, heq', Bytes.cstr_eq_self_iff.2 hnul, Bytes.cstr_eq_self_iff.2 hnul'] at hnames
    exact List.append_cancel_left (List.cons.inj hnames).1

end Prepared

/-- A file system with one page. -/
def onePage (name : Bytes) : Option Bytes :=
  if name = .ofString "webroot/test.html" then some (.ofString "hello") else none

/-- The page under its own name. -/
theorem servedAsNamed_page :
    ServedAsNamed onePage (.ofString "webroot") true (.ofString "/test.html") (.ofString "hello") :=
  (servedAsNamed_iff (.ofString "/test.html") (by decide) (by decide)).1.2 (by decide)

/-- **A NUL lets a client choose the type of a file.**  The page is served as an image. -/
theorem served_under_other_type :
    let raw := Bytes.ofString "GET /test.html%00.png HTTP/1.1\r\n\r\n"
    let req := (({} : HttpRequest).parse raw).2
    ({} : HttpRequest).parse raw = (true, req) ∧
      served onePage (.ofString "webroot") true req.path =
        ({ statusCode := 200, file := some (.ofString "hello")
           header := buildHeader 200 (.ofString "image/png") 5 true },
          [.ofString "webroot/test.html"]) ∧
      getMimeType (.ofString "webroot/test.html") = .ofString "text/html; charset=utf-8" ∧
      ¬ ServedAsNamed onePage (.ofString "webroot") true req.path (.ofString "hello") := by
  refine ⟨by decide +kernel, by decide +kernel, by decide +kernel, fun h => ?_⟩
  have hname := h.name
  revert hname
  decide +kernel

end HttpResponse

end MiniServer
