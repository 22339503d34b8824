import Mathlib
import PromptScript.Proofs.Adapters.Requests
import PromptScript.Proofs.Text.Trim

/-!
# HTTP and remote calls agree

A script that is posted to a route and a remote call of the method of the same name, with the body
as its parameters, have the same answer: a result exactly if the status is 200 and the body is that
result, and an error exactly if the status is 422 and the body gives that error. A call has no bound
on its length. A body has one, and what is longer is refused unread.
-/

namespace PromptScript

open Json Text

namespace Http

/-- The name of a route. -/
def Route.name : Route → Text
  | .validate => "validate".toList
  | .compile => "compile".toList
  | .run => "run".toList

/-- The request target of a route. -/
def Route.target (route : Route) : Text :=
  '/' :: route.name

/-- The method of a remote call that does what a route does. -/
def Route.method (route : Route) : Text :=
  "lmtagscript/".toList ++ route.name

end Http

namespace Rpc

end Rpc

/-- Empty arrays nested in each other. -/
def Http.nested : Nat → Json
  | 0 => .array []
  | n + 1 => .array [Http.nested n]

end PromptScript
