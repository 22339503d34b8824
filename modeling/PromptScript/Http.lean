import PromptScript.Json.Record
import PromptScript.Json.Report

/-!
# HTTP

Three routes, each for posting a script as JSON. A run of a script with errors is refused with its
reports, and a body that the framework does not buffer is refused unread.
-/

namespace PromptScript.Http

open Json

/-- What a route does with a script. -/
inductive Route where
  /-- Validates it. -/
  | validate
  /-- Compiles it. -/
  | compile
  /-- Runs it. -/
  | run
  deriving DecidableEq, Repr

/-- The part of a request target that names a route: what comes before a query or a fragment. -/
def pathOf (target : Text) : Text :=
  target.takeWhile fun c => c != '?' && c != '#'

/-- The route that a request target names. -/
def route? (target : Text) : Option Route :=
  let path := pathOf target
  if path = "/validate".toList then some .validate
  else if path = "/compile".toList then some .compile
  else if path = "/run".toList then some .run
  else none

/-- A script and the context to run it with. -/
structure Request where
  /-- The script, if it is given. -/
  source : Option Text
  /-- The context of a run; empty if none is given. -/
  context : List (Text × Json)

/-- Reads the body of a request. -/
def Request.ofBytes? (body : List UInt8) : Option Request := do
  let tree ← Tree.ofText? (Text.ofBytes body)
  let fields ← tree.record? unescapeBytes? ["source".toList, "options".toList]
  let source ← Tree.optional fields "source".toList (Tree.text? unescapeBytes?)
  let context ← Tree.optional fields "options".toList (Tree.context? unescapeBytes? 1)
  some ⟨source, context.join.getD []⟩

/-- A response. The framework refuses a request in its own words, which are left out. -/
structure Response where
  /-- The status code. -/
  status : Nat
  /-- The JSON body, if there is one. -/
  body : Option Json

/-- A response that reports an error. -/
def errorResponse (status : Nat) (message : Text) : Response :=
  ⟨status, some (.object [member "error" (.string message)])⟩

/-- The response to a refused run. -/
def refused (r : Refusal) : Response :=
  ⟨422, some (.object
    [member "error" (.string r.message), member "diagnostics" (diagnosticsToJson r.diagnostics)])⟩

/-- What a route gives for a script. -/
def perform (e : Engine) (source : Text) (context : List (Text × Json)) :
    Route → Response × Engine
  | .validate => (⟨200, some (e.validate source).toJson⟩, e)
  | .compile => (⟨200, some (e.compile source).toJson⟩, e)
  | .run =>
    match e.run source context with
    | (.ok run, e) => (⟨200, some run.toJson⟩, e)
    | (.error refusal, e) => (refused refusal, e)

/-- The most bytes of a body that the framework buffers, unless it is told otherwise. -/
def bodyLimit : Nat := 2097152

/-- The response to a request. The route comes before the method, and both come before the body. -/
def handle (e : Engine) (method target : Text) (body : List UInt8) : Response × Engine :=
  match route? target with
  | none => (⟨404, none⟩, e)
  | some route =>
    if method ≠ "POST".toList then (⟨405, none⟩, e)
    else if bodyLimit < body.length then (⟨413, none⟩, e)
    else
      match Request.ofBytes? body with
      | none => (errorResponse 400 "Invalid JSON body".toList, e)
      | some ⟨some (c :: source), context⟩ => perform e (c :: source) context route
      | some _ => (errorResponse 400 "Missing 'source'".toList, e)

end PromptScript.Http
