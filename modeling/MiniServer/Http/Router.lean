import MiniServer.Http.Request

/-!
# The request router

`RequestRouter.route` answers `/register` and `/login`.  The user service is an effect, so the
router is written for an arbitrary monad with the two operations of the service.
-/

namespace MiniServer

/-- `class UserService`. -/
structure UserService (m : Type → Type) where
  registerUser : Bytes → Bytes → m Bool
  loginUser : Bytes → Bytes → m Bool

/-- `struct RoutedResponse`. -/
structure RoutedResponse where
  statusCode : ℤ
  body : Bytes
  contentType : Bytes
  deriving DecidableEq, Repr

namespace RequestRouter

/-- `RequestRouter::handles`. -/
def handles (request : HttpRequest) : Bool :=
  request.path = .ofString "/register" || request.path = .ofString "/login"

/-- The loop of `formValue` on the part of the body that is left.  Every round takes an `&` off
it, so one round more than there are bytes is enough. -/
def formValueLoop (key : Bytes) : ℕ → Bytes → Bytes
  | 0, _ => []
  | n + 1, rest =>
    let pair := match Text.find [38] rest with
      | none => rest
      | some amp => rest.take amp
    let next := match Text.find [38] rest with
      | none => []
      | some amp => formValueLoop key n (rest.drop (amp + 1))
    match Text.find [61] pair with
    | none => next
    | some eq => if pair.take eq = key then HttpRequest.urlDecode (pair.drop (eq + 1)) else next

/-- `RequestRouter::formValue`. -/
def formValue (body key : Bytes) : Bytes := formValueLoop key (body.length + 1) body

/-- The content type of every routed response. -/
def jsonType : Bytes := .ofString "application/json; charset=utf-8"

/-- `RequestRouter::route`. -/
def route {m : Type → Type} [Monad m] (users : UserService m) (request : HttpRequest) :
    m RoutedResponse := do
  if request.method ≠ .post then
    return ⟨405, .ofString "\x7b\"error\":\"method not allowed\"\x7d", jsonType⟩
  else
    let username := formValue request.body (.ofString "username")
    let password := formValue request.body (.ofString "password")
    if username = [] ∨ password = [] then
      return ⟨400, .ofString "\x7b\"error\":\"username and password required\"\x7d", jsonType⟩
    else if request.path = .ofString "/register" then
      if ← users.registerUser username password then
        return ⟨201, .ofString "\x7b\"message\":\"registered\"\x7d", jsonType⟩
      else return ⟨409, .ofString "\x7b\"error\":\"username already exists\"\x7d", jsonType⟩
    else if ← users.loginUser username password then
      return ⟨200, .ofString "\x7b\"message\":\"login ok\"\x7d", jsonType⟩
    else return ⟨401, .ofString "\x7b\"error\":\"invalid credentials\"\x7d", jsonType⟩

end RequestRouter

end MiniServer
