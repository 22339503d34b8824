import PromptScript.Form.Basic
import PromptScript.Registry

/-!
# Execution

The references of a form are handed one by one, in order, to the resolvers that serve their kinds.
A missing or failing resolver is logged and reported, and execution goes on with the next
reference.
-/

namespace PromptScript

/-- What execution has produced so far. -/
structure Execution where
  /-- The log in order. -/
  log : List Text
  /-- The outputs of resolvers by reference kind, in order. -/
  resolved : Dictionary (List Json)
  /-- The reports in order. -/
  diagnostics : List Diagnostic
  /-- The requests that resolvers have answered. -/
  calls : Calls

namespace Execution

/-- Execution that begins with a log and with requests answered before. -/
def start (log : List Text) (calls : Calls) : Execution :=
  ⟨log, .empty, [], calls⟩

/-- The report that a resolver failed. -/
def failure (kind : Text) (error : ResolverError) : Diagnostic :=
  .error "E_RESOLVER".toList
    ("Resolver for '@".toList ++ kind ++ "' failed: ".toList ++ error.render)

/-- A report at a place, if the place is known. -/
def locate (place : Option Span) (d : Diagnostic) : Diagnostic :=
  match place with
  | some span => d.located span
  | none => d

/-- The request that a reference makes. -/
def request (context : List (Text × Json)) (r : FormReference) : Request :=
  ⟨r.kind, r.target, r.body, r.params, context⟩

/-- Adds an entry to the log. -/
def note (e : Execution) (entry : Text) : Execution :=
  { e with log := e.log ++ [entry] }

/-- Adds a report. -/
def report (e : Execution) (d : Diagnostic) : Execution :=
  { e with diagnostics := e.diagnostics ++ [d] }

/-- Adds an output of a kind. -/
def output (e : Execution) (kind : Text) (value : Json) : Execution :=
  { e with resolved := e.resolved.alter kind fun found => found.getD [] ++ [value] }

/-- Records a request that a registered kind has answered. -/
def record (e : Execution) (serving : Text) (q : Request) : Execution :=
  { e with calls := e.calls.alter serving fun found => q :: found.getD [] }

/-- Execution past a reference at a place. -/
def step (registry : Registry) (context : List (Text × Json)) (e : Execution)
    (r : FormReference) (place : Option Span) : Execution :=
  let missing :=
    (e.note ("unresolved: ".toList ++ r.kind)).report
      (locate place (Diagnostic.unresolved r.kind))
  match registry.serving? r.kind with
  | none => missing
  | some serving =>
    match registry.resolvers.get? serving with
    | none => missing
    | some resolver =>
      let q := request context r
      match resolver (e.calls.of serving) q with
      | .ok value =>
        ((e.record serving q).note ("resolved: ".toList ++ r.kind)).output r.kind value
      | .error error =>
        ((e.record serving q).note
          ("error in ".toList ++ r.kind ++ ": ".toList ++ error.render)).report
            (locate place (failure r.kind error))

/-- Execution past references, the places of the first of them being known. -/
def steps (registry : Registry) (context : List (Text × Json)) (e : Execution) :
    List FormReference → List Span → Execution
  | [], _ => e
  | r :: rest, [] => steps registry context (step registry context e r none) rest []
  | r :: rest, span :: spans =>
    steps registry context (step registry context e r (some span)) rest spans

/-- Executes a form, from a log and requests answered before. -/
def ofForm (registry : Registry) (form : Form) (context : List (Text × Json))
    (places : List Span) (log : List Text) (calls : Calls) : Execution :=
  steps registry context (start log calls) form.references places

end Execution

end PromptScript
