import PromptScript.Diagnostic
import PromptScript.Document.Basic
import PromptScript.Registry

/-!
# Validation

The rules that the grammar cannot express. Each rule looks at the document alone, or at the
document and a registry, and never at what another rule found. A document is fit to run if no rule
reports an error.
-/

namespace PromptScript

/-- A rule of validation. -/
inductive Rule where
  /-- Each kind of section occurs exactly once. -/
  | requiredSections
  /-- No section is blank. -/
  | emptySection
  /-- The kinds of references are well formed. -/
  | referenceKind
  /-- References have resolvers. -/
  | unresolvedReference
  deriving DecidableEq, Repr

namespace Rule

/-- The rules in the order in which they are applied. -/
def all : List Rule :=
  [.requiredSections, .emptySection, .referenceKind, .unresolvedReference]

/-- The name of a rule. -/
def id : Rule → Text
  | .requiredSections => "required-sections".toList
  | .emptySection => "empty-section".toList
  | .referenceKind => "reference-kind".toList
  | .unresolvedReference => "unresolved-reference".toList

/-- What a rule asks for, in words. -/
def description : Rule → Text
  | .requiredSections => "TASK, ACTION and GOAL must each appear exactly once".toList
  | .emptySection => "Sections must contain text".toList
  | .referenceKind => "Reference kinds may only contain word characters, ':' and '-'".toList
  | .unresolvedReference => "References should have a registered capability resolver".toList

/-- The report that a kind of section is missing. -/
def missing (kind : SectionKind) : Diagnostic :=
  .error ("E_".toList ++ kind.keyword) ("Missing ".toList ++ kind.keyword)

/-- The report that a section is not the first of its kind. -/
def duplicate (s : Section) : Diagnostic :=
  (Diagnostic.error ("E_DUP_".toList ++ s.kind.keyword)
    ("Duplicate ".toList ++ s.kind.keyword ++ " section".toList)).located s.span

/-- The report that a section is blank. -/
def blank (s : Section) : Diagnostic :=
  (Diagnostic.error ("E_EMPTY_".toList ++ s.kind.keyword)
    ("Empty ".toList ++ s.kind.keyword ++ " section".toList)).located s.span

/-- The report that a kind is malformed. -/
def malformedKind (kind : Text) (span : Span) : Diagnostic :=
  (Diagnostic.error "E_REF_KIND".toList
    ("Invalid reference kind '".toList ++ kind ++ ['\''])).located span

/-- What is reported of the sections of one kind. -/
def sectionReports (d : Document) (kind : SectionKind) : List Diagnostic :=
  match d.sectionsOf kind with
  | [] => [missing kind]
  | _ :: others => others.map duplicate

/-- The kinds that a document refers to, with their places: those of references, then those of
API calls. -/
def kinds (d : Document) : List (Text × Span) :=
  d.references.map (fun r => (r.kind, r.span)) ++
    d.apiCalls.filterMap fun c =>
      match c.call.target with
      | .reference kind => some (kind, c.span)
      | .service _ _ => none

/-- What a rule reports of a document, given a registry if there is one. -/
def check (d : Document) (registry : Option Registry) : Rule → List Diagnostic
  | .requiredSections => SectionKind.all.flatMap (sectionReports d)
  | .emptySection => (d.sections.filter fun s => (Text.trim s.body).isEmpty).map blank
  | .referenceKind =>
    ((kinds d).filter fun entry => !isValidKind entry.1).map fun entry =>
      malformedKind entry.1 entry.2
  | .unresolvedReference =>
    match registry with
    | none => []
    | some registry =>
      (d.references.filter fun r => isValidKind r.kind && !registry.contains r.kind).map fun r =>
        (Diagnostic.unresolved r.kind).located r.span

end Rule

/-- The outcome of validation. -/
structure Validation where
  /-- Whether no error was found. -/
  ok : Bool
  /-- What the rules report. -/
  diagnostics : List Diagnostic
  /-- The problems in the form of the script. -/
  parseDiagnostics : List Diagnostic
  deriving DecidableEq, Repr

namespace Validation

/-- The outcome with what the rules report. -/
def ofDiagnostics (diagnostics : List Diagnostic) : Validation :=
  ⟨!diagnostics.any (·.isError), diagnostics, []⟩

/-- The errors among what the rules report. -/
def errors (v : Validation) : List Diagnostic :=
  v.diagnostics.filter (·.isError)

/-- Validates a document. Kinds are checked for resolvers only against a registry. -/
def ofDocument (d : Document) (registry : Option Registry) : Validation :=
  ofDiagnostics (Rule.all.flatMap (Rule.check d registry))

end Validation

end PromptScript
