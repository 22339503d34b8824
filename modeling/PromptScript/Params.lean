import PromptScript.Dictionary
import PromptScript.Text.Split

/-!
# Parameters

The keyed view of a reference body or a call payload. A body that is a list of keyed entries
separated by commas has the entries as its parameters; any other body is free text and has none.
Separators count only outside quotes and brackets.
-/

namespace PromptScript

/-- Parameters by their keys. -/
abbrev Params := Dictionary Text

namespace Params

/-- How deep in quotes and brackets a place in a body is. -/
structure Nesting where
  /-- Whether the place is inside double quotes. -/
  quoted : Bool
  /-- Whether a backslash inside quotes comes just before. -/
  escaped : Bool
  /-- How many brackets are open. -/
  depth : Nat
  deriving DecidableEq, Repr

namespace Nesting

/-- Outside all quotes and brackets. -/
def top : Nesting := ⟨false, false, 0⟩

/-- Whether a separator counts. -/
def isTop (n : Nesting) : Bool :=
  !n.quoted && n.depth == 0

/-- The nesting past a character. A closing bracket without a partner is ignored. -/
def step (n : Nesting) (c : Char) : Nesting :=
  if n.quoted then
    if n.escaped then { n with escaped := false }
    else if c = '\\' then { n with escaped := true }
    else if c = '"' then { n with quoted := false }
    else n
  else if c = '"' then { n with quoted := true }
  else if c = '{' ∨ c = '[' ∨ c = '(' then { n with depth := n.depth + 1 }
  else if c = '}' ∨ c = ']' ∨ c = ')' then { n with depth := n.depth - 1 }
  else n

end Nesting

/-- The first part of a text cut at the separators that count, and the further parts. -/
def partsFrom (separator : Char) (n : Nesting) : Text → Text × List Text
  | [] => ([], [])
  | c :: rest =>
    if c = separator ∧ n.isTop = true then
      let (part, parts) := partsFrom separator .top rest
      ([], part :: parts)
    else
      let (part, parts) := partsFrom separator (n.step c) rest
      (c :: part, parts)

/-- The parts of a text between the separators outside quotes and brackets. -/
def splitTop (separator : Char) (t : Text) : List Text :=
  let (part, parts) := partsFrom separator .top t
  part :: parts

/-- Splits around the first separator outside quotes and brackets. -/
def cutTop? (separator : Char) (t : Text) : Option (Text × Text) :=
  match partsFrom separator .top t with
  | (_, []) => none
  | (part, _ :: _) => some (part, t.drop (part.length + 1))

/-- The key and value of a trimmed entry; nothing without a colon or with an empty key. -/
def entry? (entry : Text) : Option (Text × Text) :=
  match cutTop? ':' entry with
  | none => none
  | some (key, value) =>
    let key := Text.unquote (Text.trim key)
    if key.isEmpty then none else some (key, Text.unquote (Text.trim value))

/-- The keys and values of entries, blank ones left out; nothing if one is not keyed. -/
def entries? : List Text → Option (List (Text × Text))
  | [] => some []
  | part :: rest =>
    let part := Text.trim part
    if part.isEmpty then entries? rest
    else
      match entry? part with
      | none => none
      | some entry => (entries? rest).map (entry :: ·)

/-- The parameters of a body. -/
def ofBody (body : Text) : Params :=
  ((entries? (splitTop ',' body)).map Dictionary.ofList).getD Dictionary.empty

end Params

end PromptScript
