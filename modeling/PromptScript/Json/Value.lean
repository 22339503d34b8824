import PromptScript.Dictionary
import PromptScript.Json.Number

/-!
# JSON values

The members of an object keep the order they are given in. Values that come from outside have
their members sorted, each name once.
-/

namespace PromptScript

/-- A JSON value. -/
inductive Json where
  /-- The null value. -/
  | null
  /-- A truth value. -/
  | bool (value : Bool)
  /-- A number. -/
  | number (value : Json.Number)
  /-- A string. -/
  | string (value : Text)
  /-- An array. -/
  | array (items : List Json)
  /-- An object. -/
  | object (members : List (Text × Json))
  deriving Repr, Inhabited

namespace Json

/-- A natural number as a value. -/
def nat (n : Nat) : Json :=
  .number (.int n)

/-- A dictionary as an object. -/
def ofDictionary (d : Dictionary Json) : Json :=
  .object d.entries

mutual

/-- The value with the members of all objects sorted, of equal names the last one kept. -/
def sort : Json → Json
  | .array items => .array (sortItems items)
  | .object members => ofDictionary (Dictionary.ofList (sortMembers members))
  | j => j

/-- The items of an array, sorted one by one. -/
def sortItems : List Json → List Json
  | [] => []
  | j :: rest => sort j :: sortItems rest

/-- The members of an object, their values sorted. -/
def sortMembers : List (Text × Json) → List (Text × Json)
  | [] => []
  | (name, j) :: rest => (name, sort j) :: sortMembers rest

end

/-- A named member. -/
def member (name : String) (value : Json) : Text × Json :=
  (name.toList, value)

/-- The members of a value that has some; none for a value that is left out. -/
def memberIf (name : String) (value : Option Json) : List (Text × Json) :=
  match value with
  | some j => [member name j]
  | none => []

end Json

end PromptScript
