import PromptScript.Engine
import PromptScript.Json.Form

/-!
# Outcomes as JSON

The written form of what validating, compiling and running a script gives, and of why a script was
refused.
-/

namespace PromptScript

open Json

/-- The outcome of validation as a record. -/
def Validation.toJson (v : Validation) : Json :=
  .object <|
    [member "ok" (.bool v.ok), member "diagnostics" (diagnosticsToJson v.diagnostics)] ++
    memberList "parseDiagnostics" (v.parseDiagnostics.map Diagnostic.toJson)

/-- The outcome of compiling as a record. -/
def Compiled.toJson (c : Compiled) : Json :=
  .object
    [member "ast" c.document.toJson, member "json" c.form.toJson,
     member "warnings" (diagnosticsToJson c.diagnostics)]

/-- The outputs of resolvers as an object. -/
def resolvedToJson (resolved : Dictionary (List Json)) : Json :=
  .object (resolved.entries.map fun entry => (entry.1, .array entry.2))

/-- The outcome of a run as a record. -/
def Run.toJson (r : Run) : Json :=
  .object <|
    [member "logs" (.array (r.log.map .string)),
     member "result"
      (.object (r.form.members ++ [member "resolved" (resolvedToJson r.resolved)]))] ++
    memberList "diagnostics" (r.diagnostics.map Diagnostic.toJson)

/-- Why a script was refused, on one line. -/
def Refusal.message (r : Refusal) : Text :=
  "Invalid LMTagScript: ".toList ++ compact (diagnosticsToJson r.diagnostics)

end PromptScript
