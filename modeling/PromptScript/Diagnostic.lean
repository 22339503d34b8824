import PromptScript.Span
import PromptScript.Text.Split

/-!
# Diagnostics

A diagnostic is a report about a script: a severity, a code, a message and, if known, a place.
Diagnostics are data; only running a script refuses on account of them.
-/

namespace PromptScript

/-- How serious a diagnostic is. -/
inductive Severity where
  /-- The script must not be run. -/
  | error
  /-- The script may be run. -/
  | warning
  deriving DecidableEq, Repr

/-- The written name of a severity. -/
def Severity.name : Severity → Text
  | .error => "error".toList
  | .warning => "warning".toList

/-- A report produced by parsing, validation or execution. -/
structure Diagnostic where
  /-- What is reported, in words. -/
  message : Text
  /-- How serious it is. -/
  severity : Severity
  /-- What is reported, for machines. -/
  code : Text
  /-- The line it is about. -/
  line : Option Nat
  /-- The column it is about. -/
  column : Option Nat
  deriving DecidableEq, Repr

namespace Diagnostic

/-- An error without a place. -/
def error (code message : Text) : Diagnostic :=
  ⟨message, .error, code, none, none⟩

/-- A warning without a place. -/
def warning (code message : Text) : Diagnostic :=
  ⟨message, .warning, code, none, none⟩

/-- The diagnostic at the start of a span. -/
def located (d : Diagnostic) (span : Span) : Diagnostic :=
  { d with line := some span.start.line, column := some span.start.column }

/-- Whether the diagnostic is an error. -/
def isError (d : Diagnostic) : Bool :=
  d.severity == .error

/-- The diagnostic as one line of text. -/
def render (d : Diagnostic) : Text :=
  let place := match d.line, d.column with
    | some line, some column =>
      " at line ".toList ++ Text.ofNat line ++ ", col ".toList ++ Text.ofNat column
    | _, _ => []
  d.severity.name ++ place ++ ": ".toList ++ d.message ++ " [".toList ++ d.code ++ "]".toList

end Diagnostic

end PromptScript
