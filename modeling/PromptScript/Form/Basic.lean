import PromptScript.Document.Basic

/-!
# Compiled forms

The form of a script keeps what a host needs and drops the places. Lowering never fails: a missing
section becomes empty text, and of sections of one kind the first counts.
-/

namespace PromptScript

/-- A reference of a form. -/
structure FormReference where
  /-- Its kind, without the at sign. -/
  kind : Text
  /-- What it refers to, by its namespace. -/
  type : ReferenceType
  /-- Its target, or else its kind without the namespace. -/
  name : Text
  /-- Its target, without the quotes. -/
  target : Option Text
  /-- Its body. -/
  body : Text
  /-- The keyed view of its body. -/
  params : Params
  deriving DecidableEq

/-- The compiled form of a script. -/
structure Form where
  /-- What the form is a form of. -/
  type : Text
  /-- The version of the format. -/
  version : Text
  /-- The text of the task. -/
  task : Text
  /-- The text of the action. -/
  action : Text
  /-- The text of the goal. -/
  goal : Text
  /-- The references in order. -/
  references : List FormReference
  /-- The blocks in order. -/
  blocks : List Block
  /-- The API calls in order. -/
  apiCalls : List ApiCall
  deriving DecidableEq

namespace Form

/-- The type of every form that is lowered from a document. -/
def scriptType : Text := "LMTagScript".toList

/-- The version of every form that is lowered from a document. -/
def currentVersion : Text := "0.2".toList

/-- The text of a section. -/
def textOf (f : Form) : SectionKind → Text
  | .task => f.task
  | .action => f.action
  | .goal => f.goal

end Form

/-- The form of a reference. -/
def Reference.lower (r : Reference) : FormReference :=
  ⟨r.kind, r.type, r.name, r.target, r.body, r.params⟩

namespace Document

/-- The text of the first section of a kind; empty if there is none. -/
def sectionText (d : Document) (kind : SectionKind) : Text :=
  ((d.section? kind).map (·.body)).getD []

/-- The form of a document. -/
def lower (d : Document) : Form :=
  { type := Form.scriptType
    version := Form.currentVersion
    task := d.sectionText .task
    action := d.sectionText .action
    goal := d.sectionText .goal
    references := d.references.map Reference.lower
    blocks := d.blocks.map (·.block)
    apiCalls := d.apiCalls.map (·.call) }

end Document

end PromptScript
