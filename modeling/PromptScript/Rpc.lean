import PromptScript.Json.Record
import PromptScript.Json.Report

/-!
# Remote calls over lines

One request per line, one response per line. A request names a method and may carry an identifier,
which its response repeats. Blank lines have no response.
-/

namespace PromptScript.Rpc

open Json

/-- A request. -/
structure Request where
  /-- The identifier, if there is one. -/
  id : Option Json
  /-- The name of the method. -/
  method : Text
  /-- The script; empty if none is given. -/
  source : Text
  /-- The context of a run; empty if none is given. -/
  context : List (Text × Json)

/-- The script and the context among the parameters of a request. -/
def parameters? (params : Tree) : Option (Text × List (Text × Json)) := do
  let fields ← params.record? unescape? ["source".toList, "options".toList]
  let source ← match fields.lookup "source".toList with
    | none => some []
    | some tree => tree.text? unescape?
  let context ← Tree.optional fields "options".toList (Tree.context? unescape? 2)
  some (source, (context.join).getD [])

/-- Reads a request. -/
def Request.ofTree? (tree : Tree) : Option Request := do
  let fields ← tree.record? unescape? ["id".toList, "method".toList, "params".toList]
  let id ← Tree.optional fields "id".toList (Tree.value? unescape? (maxDepth - 1))
  let method ← (fields.lookup "method".toList).bind (Tree.text? unescape?)
  let params ← Tree.optional fields "params".toList parameters?
  let (source, context) := params.getD ([], [])
  some ⟨id, method, source, context⟩

/-- What a response says. -/
inductive Outcome where
  /-- The result of a call. -/
  | result (value : Json)
  /-- Why there is no result. -/
  | error (message : Text)

/-- A response to a request. -/
structure Response where
  /-- The identifier of the request, if it has one. -/
  id : Option Json
  /-- What the response says. -/
  outcome : Outcome

/-- A response as a line, without the line break. -/
def Response.render (r : Response) : Text :=
  let outcome := match r.outcome with
    | .result value => member "result" value.sort
    | .error message => member "error" (.object [member "message" (.string message)])
  compact (.object (memberIf "id" r.id ++ [outcome]))

/-- Makes the call that a request asks for. -/
def call (e : Engine) (r : Request) : Outcome × Engine :=
  if r.method = "lmtagscript/validate".toList then (.result (e.validate r.source).toJson, e)
  else if r.method = "lmtagscript/compile".toList then (.result (e.compile r.source).toJson, e)
  else if r.method = "lmtagscript/run".toList then
    match e.run r.source r.context with
    | (.ok run, e) => (.result run.toJson, e)
    | (.error refusal, e) => (.error refusal.message, e)
  else (.error "Method not found".toList, e)

/-- The identifier of a text that is an object, whether it is a request or not. -/
def givenId? (text : Text) : Option Json :=
  match Json.ofText? text with
  | some (.object members) => members.lookup "id".toList
  | _ => none

/-- The response to a text that is not blank. -/
def respond (e : Engine) (text : Text) : Response × Engine :=
  match (Tree.ofText? text).bind Request.ofTree? with
  | some request =>
    let (outcome, e) := call e request
    (⟨request.id, outcome⟩, e)
  | none => (⟨givenId? text, .error "Invalid request".toList⟩, e)

/-- The response to a line, none to a blank one. -/
def handleLine (e : Engine) (line : Text) : Option Text × Engine :=
  let text := Text.trim line
  if text.isEmpty then (none, e)
  else
    let (response, e) := respond e text
    (some response.render, e)

/-- The pieces of a sequence of bytes between line breaks; none after the last line break. -/
def pieces : List UInt8 → List (List UInt8)
  | [] => []
  | b :: rest =>
    if b = 10 then [] :: pieces rest
    else
      match pieces rest with
      | [] => [[b]]
      | piece :: others => (b :: piece) :: others

/-- A line without one carriage return at its end. -/
def dropReturn (line : List UInt8) : List UInt8 :=
  if line.getLast? = some 13 then line.dropLast else line

/-- Answers lines in turn; stops at one that is not text, and says whether all were text. -/
def serveLines (e : Engine) : List (List UInt8) → List Text × Bool
  | [] => ([], true)
  | line :: rest =>
    match Text.ofUtf8? line with
    | none => ([], false)
    | some text =>
      match handleLine e text with
      | (response, e) =>
        let (responses, complete) := serveLines e rest
        (response.toList ++ responses, complete)

/-- The report of a line that is not text. -/
def readFailure : Text := "Failed to read request".toList

/-- The responses to an input, and whether all of it was read. -/
def serve (e : Engine) (input : List UInt8) : List Text × Bool :=
  serveLines e ((pieces input).map dropReturn)

end PromptScript.Rpc
