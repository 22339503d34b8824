import PromptScript.Form.Basic
import PromptScript.Json.Document

/-!
# Forms as JSON

The written form of compiled forms, and how it is read. Optional parts that are empty are left out.
-/

namespace PromptScript

open Json

namespace FormReference

/-- A reference of a form as a record. -/
def toJson (r : FormReference) : Json :=
  .object <|
    [member "kind" (.string r.kind), member "type" (.string r.type.name),
     member "name" (.string r.name)] ++
    memberIf "target" (r.target.map .string) ++ [member "body" (.string r.body)] ++
    r.params.members

/-- Reads a reference of a form. -/
def ofJson? (j : Json) : Option FormReference := do
  let f ← fields? 6 j
  let kind ← f.required "kind" 0 text?
  let type ← f.required "type" 1 (choice? ReferenceType.choices)
  let name ← f.required "name" 2 text?
  let target ← f.optional "target" 3 text?
  let body ← f.required "body" 4 text?
  let params ← f.withDefault "params" 5 .empty (dictionary? text?)
  some ⟨kind, type, name, target, body, params⟩

end FormReference

namespace Form

/-- A form as the members of a record. -/
def members (f : Form) : List (Text × Json) :=
  [member "type" (.string f.type), member "formatVersion" (.string f.version),
   member "task" (.string f.task), member "action" (.string f.action),
   member "goal" (.string f.goal),
   member "refs" (.array (f.references.map FormReference.toJson))] ++
  memberList "blocks" (f.blocks.map Block.toJson) ++
  memberList "apiCalls" (f.apiCalls.map ApiCall.toJson)

/-- A form as a record. -/
def toJson (f : Form) : Json :=
  .object f.members

/-- Reads a form. -/
def ofJson? (j : Json) : Option Form := do
  let f ← fields? 8 j
  let type ← f.required "type" 0 text?
  let version ← f.required "formatVersion" 1 text?
  let task ← f.required "task" 2 text?
  let action ← f.required "action" 3 text?
  let goal ← f.required "goal" 4 text?
  let references ← f.required "refs" 5 (list? FormReference.ofJson?)
  let blocks ← f.withDefault "blocks" 6 [] (list? Block.ofJson?)
  let apiCalls ← f.withDefault "apiCalls" 7 [] (list? ApiCall.ofJson?)
  some ⟨type, version, task, action, goal, references, blocks, apiCalls⟩

end Form

end PromptScript
