import Beep.Lib.Async
import Beep.Lib.Json

/-!
# `Controller.Client` — requests to the API server

What `HyperApiClient` sends and what comes back: a request of a method, a path and a JSON body, and either an HTTP status
with the JSON of the body, or no response at all.
-/

namespace Beep

open Json (Value)

/-- `hyper::Method`. -/
inductive HttpMethod where
  | get
  | post
  | put
  | patch
  deriving DecidableEq

/-- A request; a patch is a JSON merge patch. -/
structure ApiRequest where
  method : HttpMethod
  path : String
  body : Option Value

/-- A response; no body if it is no JSON. -/
structure ApiResponse where
  status : Nat
  body : Option Value

namespace HttpStatus

def notFound : Nat := 404

def conflict : Nat := 409

/-- `StatusCode::is_success`. -/
def isSuccess (status : Nat) : Bool := decide (200 ≤ status ∧ status < 300)

end HttpStatus

/-- A status that is no success. -/
def ErrorStatus : Type := { status : Nat // HttpStatus.isSuccess status = false }

/-- How a request goes: it is served, or answered with an error and not served, or there is no response, whether it was
    served or not. -/
inductive Serving where
  | served
  | refused (status : ErrorStatus)
  | lost (applied : Bool)

end Beep
