import PromptScript.Document.Parser
import PromptScript.Execution
import PromptScript.Json.Printer
import PromptScript.Validation

/-!
# The engine

The three operations on scripts: validating, compiling and running, with a registry of resolvers.
A script with errors is compiled as far as it goes, but is not run.
-/

namespace PromptScript

/-- A registry, and the requests that its resolvers have answered. -/
structure Engine where
  /-- The resolvers. -/
  registry : Registry
  /-- The requests they have answered. -/
  calls : Calls

/-- The outcome of compiling a script. -/
structure Compiled where
  /-- What the script says. -/
  document : Document
  /-- Its form. -/
  form : Form
  /-- The problems in its form, then what the rules report. -/
  diagnostics : List Diagnostic
  deriving DecidableEq

/-- The outcome of running a script. -/
structure Run where
  /-- The log in order. -/
  log : List Text
  /-- The form of the script. -/
  form : Form
  /-- The outputs of resolvers by reference kind. -/
  resolved : Dictionary (List Json)
  /-- The problems in the form of the script, then what the rules and the execution report. -/
  diagnostics : List Diagnostic

/-- A script was refused for the reports of the rules. -/
structure Refusal where
  /-- The reports. -/
  diagnostics : List Diagnostic
  deriving DecidableEq, Repr

/-- Compiles a script; kinds are checked against a registry if there is one. -/
def Compiled.ofText (source : Text) (registry : Option Registry) : Compiled :=
  let parsed := Parsed.ofText source
  let validation := Validation.ofDocument parsed.document registry
  ⟨parsed.document, parsed.document.lower, parsed.diagnostics ++ validation.diagnostics⟩

namespace Engine

/-- The engine with a registry whose resolvers have answered nothing. -/
def ofRegistry (registry : Registry) : Engine :=
  ⟨registry, .empty⟩

/-- The registry to check kinds against. One without resolvers has nothing to check against. -/
def checked (e : Engine) : Option Registry :=
  if e.registry.isEmpty then none else some e.registry

/-- Validates a script. Problems in its form are reported apart and do not count. -/
def validate (e : Engine) (source : Text) : Validation :=
  let parsed := Parsed.ofText source
  { Validation.ofDocument parsed.document e.checked with parseDiagnostics := parsed.diagnostics }

/-- Compiles a script. -/
def compile (e : Engine) (source : Text) : Compiled :=
  Compiled.ofText source e.checked

/-- Runs a script with a context, and gives the engine past the run. -/
def run (e : Engine) (source : Text) (context : List (Text × Json)) :
    Except Refusal Run × Engine :=
  let parsed := Parsed.ofText source
  let validation := Validation.ofDocument parsed.document none
  if validation.ok then
    let form := parsed.document.lower
    let log := ["validate: ok".toList, "compile: task='".toList ++ form.task ++ ['\'']]
    let execution :=
      Execution.ofForm e.registry form context (parsed.document.references.map (·.span)) log e.calls
    (.ok
      ⟨execution.log, form, execution.resolved,
        parsed.diagnostics ++ validation.diagnostics ++ execution.diagnostics⟩,
      { e with calls := execution.calls })
  else (.error ⟨validation.diagnostics⟩, e)

end Engine

end PromptScript
