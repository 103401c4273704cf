import Mathlib.Control.Lawful
import MiniServer.Http.Response

/-!
# The copying path and the mapping path

`build` reads the file into the object and returns one text; `prepare` maps the file and leaves the
object alone.  `build_eq_prepare` compares them as programs: in every monad they open the same
names, and the text is the header of `prepare` and the bytes behind it.
-/

namespace MiniServer

/-- What follows the header on the wire. -/
def PreparedResponse.content (p : PreparedResponse) : Bytes := p.file.getD p.body

/-- The response on the wire. -/
def PreparedResponse.bytes (p : PreparedResponse) : Bytes := p.header ++ p.content

theorem PreparedResponse.length_content (p : PreparedResponse) : p.content.length = p.bodySize := by
  unfold content bodySize
  cases p.file <;> rfl

namespace HttpResponse

theorem getMimeType_index (htmlRoot : Bytes) :
    getMimeType (htmlRoot ++ .ofString "/index.html") = htmlType := by
  have hext : ((htmlRoot ++ .ofString "/index.html").reverse.takeWhile (· ≠ 46)).reverse =
      Bytes.ofString "html" := by
    rw [List.reverse_append, show (Bytes.ofString "/index.html").reverse =
      (Bytes.ofString "html").reverse ++ 46 :: (Bytes.ofString "/index").reverse by decide]
    simp [Bytes.ofString]
  have hdot : 46 ∈ htmlRoot ++ Bytes.ofString "/index.html" :=
    List.mem_append_right _ (by decide)
  unfold getMimeType
  rw [if_pos hdot, hext]
  decide

/-- What `build` leaves in the object, from what `prepare` makes. -/
def copied (p : PreparedResponse × Bytes) : HttpResponse where
  statusCode := p.1.statusCode
  contentType := p.2
  body := p.1.content

section Monadic

variable {m : Type → Type} [Monad m] [LawfulMonad m] (openFile : OpenFile m)

/-- Every call overwrites all members. -/
theorem buildBody_eq_prepareBody (r : HttpResponse) (path htmlRoot : Bytes) :
    buildBody openFile r path htmlRoot = copied <$> prepareBody openFile path htmlRoot := by
  unfold buildBody prepareBody readFileContent MappedFile.open
  by_cases hdots : hasDots path = true
  · simp [hdots, copied, PreparedResponse.content]
  · by_cases hindex : isIndex path = true
    · simp only [hdots, hindex, if_true, if_false, Bool.false_eq_true, map_bind]
      refine bind_congr fun file => ?_
      cases file with
      | none => simp [copied, PreparedResponse.content]
      | some file => simp [copied, PreparedResponse.content, getMimeType_index]
    · simp only [hdots, hindex, if_false, Bool.false_eq_true, map_bind]
      refine bind_congr fun file => ?_
      cases file with
      | none => simp [copied, PreparedResponse.content]
      | some file => simp [copied, PreparedResponse.content]

/-- The texts agree, and the names that are opened. -/
theorem build_eq_prepare (r : HttpResponse) (path : Bytes) (isKeepAlive : Bool)
    (htmlRoot : Bytes) :
    build openFile r path isKeepAlive htmlRoot = (prepareBody openFile path htmlRoot >>= fun p => do
      let prepared := { p.1 with
        header := buildHeader p.1.statusCode p.2 p.1.bodySize isKeepAlive }
      return (PreparedResponse.bytes prepared, copied p)) := by
  unfold build
  rw [buildBody_eq_prepareBody, bind_map_left]
  refine bind_congr fun p => ?_
  have hlength : p.1.content.length = p.1.bodySize := p.1.length_content
  simp [copied, PreparedResponse.bytes, buildHeader, ← hlength, PreparedResponse.content]

end Monadic

/-- **The mapping path agrees with the copying path.**  Whatever the object has served before,
`build` gives the header of `prepare` and behind it the mapped file, or the body when no file is
mapped; the status code, the content type and the length are the same. -/
theorem build_agrees_prepare (openFile : OpenFile Id) (r : HttpResponse) (path : Bytes)
    (isKeepAlive : Bool) (htmlRoot : Bytes) :
    let built := Id.run (build openFile r path isKeepAlive htmlRoot)
    let prepared := Id.run (prepare openFile path isKeepAlive htmlRoot)
    built.1 = prepared.header ++ prepared.file.getD prepared.body ∧
      built.2.statusCode = prepared.statusCode ∧
      built.2.body.length = prepared.bodySize ∧
      prepared.header =
        buildHeader built.2.statusCode built.2.contentType built.2.body.length isKeepAlive := by
  intro built prepared
  have hbuilt : built = Id.run (build openFile r path isKeepAlive htmlRoot) := rfl
  rw [build_eq_prepare] at hbuilt
  have hlength := PreparedResponse.length_content
    (Id.run (prepareBody openFile path htmlRoot)).1
  rw [hbuilt]
  refine ⟨rfl, rfl, hlength, ?_⟩
  exact congrArg (fun n => buildHeader _ _ n isKeepAlive) hlength.symm

end HttpResponse

end MiniServer
