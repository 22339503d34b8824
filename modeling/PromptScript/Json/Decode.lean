import PromptScript.Json.Value

/-!
# Decoding JSON

A record is an object, or an array of its fields in order. Members that the record does not have
are ignored. A field that is absent takes its default, if it has one.
-/

namespace PromptScript.Json

/-- The fields of a record as they are given. -/
inductive Fields where
  /-- By their names. -/
  | named (members : List (Text × Json))
  /-- In their order. -/
  | listed (items : List Json)
  deriving Repr

/-- The fields of a record that has so many fields. -/
def fields? (count : Nat) : Json → Option Fields
  | .object members => some (.named members)
  | .array items => if items.length ≤ count then some (.listed items) else none
  | _ => none

/-- The fields of a record that can only be given as an object. -/
def members? : Json → Option Fields
  | .object members => some (.named members)
  | _ => none

namespace Fields

/-- The value of a field, by its name and its place. -/
def find? (f : Fields) (name : String) (place : Nat) : Option Json :=
  match f with
  | .named members => members.lookup name.toList
  | .listed items => items[place]?

variable {α : Type}

/-- A field that must be there. -/
def required (f : Fields) (name : String) (place : Nat) (decode : Json → Option α) : Option α :=
  (f.find? name place).bind decode

/-- A field that has a default. -/
def withDefault (f : Fields) (name : String) (place : Nat) (default : α)
    (decode : Json → Option α) : Option α :=
  match f.find? name place with
  | none => some default
  | some j => decode j

/-- A field that may be absent or null. -/
def optional (f : Fields) (name : String) (place : Nat) (decode : Json → Option α) :
    Option (Option α) :=
  match f.find? name place with
  | none => some none
  | some .null => some none
  | some j => (decode j).map some

end Fields

/-- A string. -/
def text? : Json → Option Text
  | .string t => some t
  | _ => none

/-- An unsigned integer of 64 bits. -/
def nat? : Json → Option Nat
  | .number (.int (.ofNat n)) => if n ≤ maxWord then some n else none
  | _ => none

variable {α : Type}

/-- The results of decoding the items of an array. -/
def items? (decode : Json → Option α) : List Json → Option (List α)
  | [] => some []
  | j :: rest => do
    let value ← decode j
    (items? decode rest).map (value :: ·)

/-- An array of values of one kind. -/
def list? (decode : Json → Option α) : Json → Option (List α)
  | .array items => items? decode items
  | _ => none

/-- The results of decoding the members of an object. -/
def values? (decode : Json → Option α) : List (Text × Json) → Option (List (Text × α))
  | [] => some []
  | (name, j) :: rest => do
    let value ← decode j
    (values? decode rest).map ((name, value) :: ·)

/-- An object whose members all have values of one kind. -/
def dictionary? (decode : Json → Option α) : Json → Option (Dictionary α)
  | .object members => (values? decode members).map Dictionary.ofList
  | _ => none

/-- One of a list of named values: its name, or an object whose only member has that name and the
value null. -/
def choice? (choices : List (Text × α)) : Json → Option α
  | .string name => choices.lookup name
  | .object [(name, .null)] => choices.lookup name
  | _ => none

/-- The place of a tag in a list of tags. With `counted`, a tag may also be given by its place. -/
def tagPlace? (counted : Bool) (tags : List Text) : Json → Option Nat
  | .string name => tags.findIdx? (· == name)
  | .number (.int (.ofNat n)) => if counted ∧ n < tags.length then some n else none
  | _ => none

/-- A tagged record: the place of its tag in a list of tags, and its other fields. The tag is the
member `type` of an object, or the first item of an array. -/
def tagged? (counted : Bool) (tags : List Text) : Json → Option (Nat × Fields)
  | .object members => do
    let place ← (members.lookup "type".toList).bind (tagPlace? counted tags)
    some (place, .named members)
  | .array (tag :: items) => (tagPlace? counted tags tag).map fun place => (place, .listed items)
  | _ => none

/-- Fields of which at most so many are listed. -/
def Fields.atMost (f : Fields) (count : Nat) : Option Fields :=
  match f with
  | .listed items => if items.length ≤ count then some f else none
  | .named _ => some f

end PromptScript.Json
