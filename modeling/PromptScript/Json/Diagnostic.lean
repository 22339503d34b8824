import PromptScript.Diagnostic
import PromptScript.Json.Decode

/-!
# Spans and diagnostics as JSON

The written form of spans and diagnostics, and how it is read.
-/

namespace PromptScript

open Json

/-- A span as four numbers. -/
def Span.toJson (s : Span) : Json :=
  .object
    [member "line" (nat s.start.line), member "column" (nat s.start.column),
     member "endLine" (nat s.stop.line), member "endColumn" (nat s.stop.column)]

/-- Reads a span. -/
def Span.ofJson? (j : Json) : Option Span := do
  let f ← fields? 4 j
  let line ← f.required "line" 0 nat?
  let column ← f.required "column" 1 nat?
  let endLine ← f.required "endLine" 2 nat?
  let endColumn ← f.required "endColumn" 3 nat?
  some ⟨⟨line, column⟩, ⟨endLine, endColumn⟩⟩

/-- The severities by their names. -/
def Severity.choices : List (Text × Severity) :=
  [Severity.error, Severity.warning].map fun s => (s.name, s)

namespace Diagnostic

/-- A diagnostic as a record; what is not known is left out. -/
def toJson (d : Diagnostic) : Json :=
  .object <|
    [member "message" (.string d.message), member "severity" (.string d.severity.name),
     member "code" (.string d.code)] ++
    memberIf "line" (d.line.map nat) ++ memberIf "col" (d.column.map nat)

/-- Reads a diagnostic. -/
def ofJson? (j : Json) : Option Diagnostic := do
  let f ← fields? 5 j
  let message ← f.required "message" 0 text?
  let severity ← f.required "severity" 1 (choice? Severity.choices)
  let code ← f.required "code" 2 text?
  let line ← f.optional "line" 3 nat?
  let column ← f.optional "col" 4 nat?
  some ⟨message, severity, code, line, column⟩

end Diagnostic

/-- Diagnostics as an array. -/
def diagnosticsToJson (ds : List Diagnostic) : Json :=
  .array (ds.map Diagnostic.toJson)

end PromptScript
