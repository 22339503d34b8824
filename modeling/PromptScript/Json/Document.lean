import PromptScript.Document.Basic
import PromptScript.Json.Diagnostic

/-!
# Documents as JSON

The written form of documents and their parts, and how it is read. Optional parts that are empty
are left out.
-/

namespace PromptScript

open Json

/-- The kinds of sections by their names. -/
def SectionKind.choices : List (Text × SectionKind) :=
  SectionKind.all.map fun kind => (kind.keyword, kind)

/-- The written name of a type of reference. -/
def ReferenceType.name : ReferenceType → Text
  | .tool => "tool".toList
  | .file => "file".toList
  | .project => "project".toList
  | .database => "database".toList
  | .unknown => "unknown".toList

/-- The types of references by their names. -/
def ReferenceType.choices : List (Text × ReferenceType) :=
  [ReferenceType.tool, .file, .project, .database, .unknown].map fun type => (type.name, type)

/-- The operators by their written forms. -/
def Operator.choices : List (Text × Operator) :=
  Operator.searchOrder.map fun operator => (operator.text, operator)

/-- A member for an array that is left out when empty. -/
def Json.memberList (name : String) (items : List Json) : List (Text × Json) :=
  memberIf name (if items.isEmpty then none else some (.array items))

/-- A member for a text that is left out when empty. -/
def Json.memberText (name : String) (text : Text) : List (Text × Json) :=
  memberIf name (if text.isEmpty then none else some (.string text))

namespace Params

/-- Parameters as an object. -/
def toJson (params : Params) : Json :=
  .object (params.entries.map fun entry => (entry.1, .string entry.2))

/-- A member for parameters that is left out when there are none. -/
def members (params : Params) : List (Text × Json) :=
  memberIf "params" (if params.isEmpty then none else some (toJson params))

end Params

namespace Section

/-- A section as a record. -/
def toJson (s : Section) : Json :=
  .object
    [member "kind" (.string s.kind.keyword), member "body" (.string s.body),
     member "span" s.span.toJson]

/-- Reads a section. -/
def ofJson? (j : Json) : Option Section := do
  let f ← fields? 3 j
  let kind ← f.required "kind" 0 (choice? SectionKind.choices)
  let body ← f.required "body" 1 text?
  let span ← f.required "span" 2 Span.ofJson?
  some ⟨kind, body, span⟩

end Section

namespace Reference

/-- A reference as a record. -/
def toJson (r : Reference) : Json :=
  .object <|
    [member "kind" (.string r.kind)] ++ memberIf "target" (r.target.map .string) ++
    [member "body" (.string r.body)] ++ r.params.members ++ [member "span" r.span.toJson]

/-- Reads a reference. -/
def ofJson? (j : Json) : Option Reference := do
  let f ← fields? 5 j
  let kind ← f.required "kind" 0 text?
  let target ← f.optional "target" 1 text?
  let body ← f.required "body" 2 text?
  let params ← f.withDefault "params" 3 .empty (dictionary? text?)
  let span ← f.required "span" 4 Span.ofJson?
  some ⟨kind, target, body, params, span⟩

end Reference

namespace Condition

/-- A condition as a record: its sides and operator, or its text. -/
def toJson : Condition → Json
  | .comparison left operator right =>
    .object
      [member "left" (.string left), member "operator" (.string operator.text),
       member "right" (.string right)]
  | .raw text => .object [member "raw" (.string text)]

/-- Reads a comparison. -/
def comparison? (f : Fields) : Option Condition := do
  let left ← f.required "left" 0 text?
  let operator ← f.required "operator" 1 (choice? Operator.choices)
  let right ← f.required "right" 2 text?
  some (.comparison left operator right)

/-- Reads a condition: a comparison if it is one, and else plain text. -/
def ofJson? (j : Json) : Option Condition := do
  let f ← members? j
  (comparison? f).or ((f.required "raw" 0 text?).map .raw)

end Condition

namespace Block

/-- The tags of the blocks. -/
def tags : List Text :=
  ["if".toList, "forEach".toList, "onError".toList]

/-- A block as the members of a record. -/
def members : Block → List (Text × Json)
  | .conditional condition body otherwise =>
    [member "type" (.string "if".toList), member "condition" condition.toJson,
     member "then" (.string body)] ++ memberText "else" otherwise
  | .forEach item collection body =>
    [member "type" (.string "forEach".toList), member "variable" (.string item),
     member "collection" (.string collection), member "body" (.string body)]
  | .onError body =>
    [member "type" (.string "onError".toList), member "body" (.string body)]

/-- Reads the fields of a block whose tag has a place in the list of tags. -/
def ofFields? (place : Nat) (f : Fields) : Option Block :=
  match place with
  | 0 => do
    let f ← f.atMost 3
    let condition ← f.required "condition" 0 Condition.ofJson?
    let body ← f.required "then" 1 text?
    let otherwise ← f.withDefault "else" 2 [] text?
    some (.conditional condition body otherwise)
  | 1 => do
    let f ← f.atMost 3
    let item ← f.required "variable" 0 text?
    let collection ← f.required "collection" 1 text?
    let body ← f.required "body" 2 text?
    some (.forEach item collection body)
  | _ => do
    let f ← f.atMost 1
    let body ← f.required "body" 0 text?
    some (.onError body)

/-- A block as a record. -/
def toJson (b : Block) : Json :=
  .object b.members

/-- Reads a block. -/
def ofJson? (j : Json) : Option Block := do
  let (place, f) ← tagged? false tags j
  ofFields? place f

end Block

namespace BlockStatement

/-- A block with its span, as one record. -/
def toJson (s : BlockStatement) : Json :=
  .object (s.block.members ++ [member "span" s.span.toJson])

/-- Reads a block with its span. The tag may be given by its place. -/
def ofJson? (j : Json) : Option BlockStatement := do
  let f ← members? j
  let (place, fields) ← tagged? true Block.tags j
  let block ← Block.ofFields? place fields
  let span ← f.required "span" 0 Span.ofJson?
  some ⟨block, span⟩

end BlockStatement

namespace ApiTarget

/-- A target as a record. -/
def toJson : ApiTarget → Json
  | .service owner endpoint =>
    .object
      [member "type" (.string "service".toList), member "service" (.string owner),
       member "endpoint" (.string endpoint)]
  | .reference kind =>
    .object [member "type" (.string "reference".toList), member "kind" (.string kind)]

/-- Reads a target; `counted` says whether its tag may be given by its place. -/
def ofJson? (counted : Bool) (j : Json) : Option ApiTarget := do
  let (place, f) ← tagged? counted ["service".toList, "reference".toList] j
  if place = 0 then do
    let f ← f.atMost 2
    let owner ← f.required "service" 0 text?
    let endpoint ← f.required "endpoint" 1 text?
    some (.service owner endpoint)
  else do
    let f ← f.atMost 1
    let kind ← f.required "kind" 0 text?
    some (.reference kind)

end ApiTarget

namespace ApiCall

/-- A call as the members of a record. -/
def members (c : ApiCall) : List (Text × Json) :=
  [member "target" c.target.toJson] ++ memberText "payload" c.payload ++ c.params.members

/-- Reads the fields of a call; `counted` says whether the tag of its target may be given by its
place. -/
def ofFields? (counted : Bool) (f : Fields) : Option ApiCall := do
  let target ← f.required "target" 0 (ApiTarget.ofJson? counted)
  let payload ← f.withDefault "payload" 1 [] text?
  let params ← f.withDefault "params" 2 .empty (dictionary? text?)
  some ⟨target, payload, params⟩

/-- A call as a record. -/
def toJson (c : ApiCall) : Json :=
  .object c.members

/-- Reads a call. -/
def ofJson? (j : Json) : Option ApiCall := do
  ofFields? false (← fields? 3 j)

end ApiCall

namespace ApiCallStatement

/-- A call with its span, as one record. -/
def toJson (s : ApiCallStatement) : Json :=
  .object (s.call.members ++ [member "span" s.span.toJson])

/-- Reads a call with its span. -/
def ofJson? (j : Json) : Option ApiCallStatement := do
  let f ← members? j
  let call ← ApiCall.ofFields? true f
  let span ← f.required "span" 0 Span.ofJson?
  some ⟨call, span⟩

end ApiCallStatement

namespace Document

/-- A document as a record. -/
def toJson (d : Document) : Json :=
  .object <|
    [member "sections" (.array (d.sections.map Section.toJson)),
     member "references" (.array (d.references.map Reference.toJson))] ++
    memberList "blocks" (d.blocks.map BlockStatement.toJson) ++
    memberList "apiCalls" (d.apiCalls.map ApiCallStatement.toJson)

/-- Reads a document. -/
def ofJson? (j : Json) : Option Document := do
  let f ← fields? 4 j
  let sections ← f.required "sections" 0 (list? Section.ofJson?)
  let references ← f.required "references" 1 (list? Reference.ofJson?)
  let blocks ← f.withDefault "blocks" 2 [] (list? BlockStatement.ofJson?)
  let apiCalls ← f.withDefault "apiCalls" 3 [] (list? ApiCallStatement.ofJson?)
  some ⟨sections, references, blocks, apiCalls⟩

end Document

end PromptScript
