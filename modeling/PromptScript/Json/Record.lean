import PromptScript.Json.Reader

/-!
# Records in JSON text

A record read straight from a text is an object or an array of its fields in order. A field may
not be given twice; members that the record does not have are not looked into.
-/

namespace PromptScript.Json.Tree

/-- The members of an object with their names unescaped. -/
def names? (string? : Unquoting) : List (Text × Tree) → Option (List (Text × Tree))
  | [] => some []
  | (name, tree) :: rest => do
    let name ← string? name
    (names? string? rest).map ((name, tree) :: ·)

/-- The given fields of a record with fields of certain names. -/
def record? (string? : Unquoting) (fields : List Text) : Tree → Option (List (Text × Tree))
  | .object members => do
    let known := (← names? string? members).filter fun m => fields.contains m.1
    if (known.map (·.1)).Nodup then some known else none
  | .array items =>
    if items.length ≤ fields.length then some (fields.zip items) else none
  | _ => none

variable {α : Type}

/-- A field that may be absent or null. -/
def optional (fields : List (Text × Tree)) (name : Text) (decode : Tree → Option α) :
    Option (Option α) :=
  match fields.lookup name with
  | none => some none
  | some .null => some none
  | some tree => (decode tree).map some

/-- A string. -/
def text? (string? : Unquoting) : Tree → Option Text
  | .string written => string? written
  | _ => none

/-- The members of an object whose values may be nested to a depth. -/
def members? (string? : Unquoting) (depth : Nat) (tree : Tree) : Option (List (Text × Json)) :=
  match tree.value? string? depth with
  | some (.object members) => some members
  | _ => none

/-- The context among the options of a run that stand inside so many containers. -/
def context? (string? : Unquoting) (outer : Nat) (options : Tree) :
    Option (Option (List (Text × Json))) := do
  let fields ← options.record? string? ["ctx".toList]
  optional fields "ctx".toList (members? string? (maxDepth - outer - 1))

end PromptScript.Json.Tree
