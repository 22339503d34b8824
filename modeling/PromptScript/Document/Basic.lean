import PromptScript.ApiCall
import PromptScript.Condition
import PromptScript.Span

/-!
# Documents

What a script says: its sections in order, the references in all of its text, its blocks and its
API calls, each with the part of the script it takes up.
-/

namespace PromptScript

/-- The kind of a section. -/
inductive SectionKind where
  /-- What is to be achieved. -/
  | task
  /-- What is to be done. -/
  | action
  /-- What success looks like. -/
  | goal
  deriving DecidableEq, Repr

namespace SectionKind

/-- The kinds in the order in which a script should have them. -/
def all : List SectionKind :=
  [.task, .action, .goal]

/-- The word that heads a section. -/
def keyword : SectionKind → Text
  | .task => "TASK".toList
  | .action => "ACTION".toList
  | .goal => "GOAL".toList

/-- The kind of section that a header opens, in any case and with colons after it. -/
def ofHeader? (header : Text) : Option SectionKind :=
  let word := Text.lower (Text.trim (Text.trimEndChar ':' header))
  all.find? fun kind => Text.lower kind.keyword == word

end SectionKind

/-- A section of a script. -/
structure Section where
  /-- Its kind. -/
  kind : SectionKind
  /-- Its text without the references, trimmed. -/
  body : Text
  /-- The part of the script it takes up. -/
  span : Span
  deriving DecidableEq, Repr

/-- What a reference refers to, by its namespace. -/
inductive ReferenceType where
  /-- A tool. -/
  | tool
  /-- A file. -/
  | file
  /-- A project. -/
  | project
  /-- A database. -/
  | database
  /-- Anything else. -/
  | unknown
  deriving DecidableEq, Repr

/-- The type that a namespace stands for. -/
def ReferenceType.ofNamespace (name : Text) : ReferenceType :=
  if name = "tool".toList then .tool
  else if name = "file".toList then .file
  else if name = "project".toList then .project
  else if name = "db".toList ∨ name = "database".toList then .database
  else .unknown

/-- The part of a kind before its first colon, if it has one. -/
def namespaceOf? (kind : Text) : Option Text :=
  (Text.splitFirst? (· == ':') kind).map (·.1)

/-- A reference of a script. -/
structure Reference where
  /-- Its kind, without the at sign. -/
  kind : Text
  /-- Its target, without the quotes. -/
  target : Option Text
  /-- Its body, trimmed. -/
  body : Text
  /-- The keyed view of its body. -/
  params : Params
  /-- The part of the script it takes up. -/
  span : Span
  deriving DecidableEq

namespace Reference

/-- The type by the namespace of the kind; a kind with a target but no namespace is its own. -/
def type (r : Reference) : ReferenceType :=
  ReferenceType.ofNamespace <|
    match namespaceOf? r.kind, r.target with
    | some name, _ => name
    | none, some _ => r.kind
    | none, none => []

/-- The target, or else the kind without its namespace. -/
def name (r : Reference) : Text :=
  match r.target with
  | some target => target
  | none =>
    match Text.splitFirst? (· == ':') r.kind with
    | some (_, name) => name
    | none => r.kind

end Reference

/-- A block of a script. Nothing evaluates it; it is recorded for the host. -/
inductive Block where
  /-- Text for when a condition holds, and for when it does not. -/
  | conditional (condition : Condition) (body otherwise : Text)
  /-- Text for each item of a collection. -/
  | forEach (item collection body : Text)
  /-- Text for when something fails. -/
  | onError (body : Text)
  deriving DecidableEq, Repr

/-- A block and the part of the script it takes up. -/
structure BlockStatement where
  /-- The block. -/
  block : Block
  /-- The part of the script it takes up. -/
  span : Span
  deriving DecidableEq, Repr

/-- An API call and the part of the script it takes up. -/
structure ApiCallStatement where
  /-- The call. -/
  call : ApiCall
  /-- The part of the script it takes up. -/
  span : Span
  deriving DecidableEq

/-- What a script says. Sections of one kind are all kept. -/
structure Document where
  /-- The sections in order. -/
  sections : List Section
  /-- The references in order, those inside blocks too. -/
  references : List Reference
  /-- The blocks in order. -/
  blocks : List BlockStatement
  /-- The API calls in order. -/
  apiCalls : List ApiCallStatement
  deriving DecidableEq

namespace Document

/-- The document that says nothing. -/
def empty : Document := ⟨[], [], [], []⟩

/-- The sections of a kind, in order. -/
def sectionsOf (d : Document) (kind : SectionKind) : List Section :=
  d.sections.filter fun s => s.kind == kind

/-- The first section of a kind. -/
def section? (d : Document) (kind : SectionKind) : Option Section :=
  (d.sectionsOf kind).head?

end Document

end PromptScript
