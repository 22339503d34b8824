import PromptScript.Json.Value

/-!
# Printing JSON

Two written forms of a value: compact, on one line without spaces, and indented by two spaces per
level. Strings escape the double quote, the backslash and the characters below U+0020.
-/

namespace PromptScript.Json

/-- The lower case hexadecimal digit of a number below sixteen. -/
def hexDigit (n : Nat) : Char :=
  "0123456789abcdef".toList.getD n '0'

/-- A character as it stands in a string. -/
def escape (c : Char) : Text :=
  if c = '"' then ['\\', '"']
  else if c = '\\' then ['\\', '\\']
  else if c = '\n' then ['\\', 'n']
  else if c = '\r' then ['\\', 'r']
  else if c = '\t' then ['\\', 't']
  else if c.toNat = 8 then ['\\', 'b']
  else if c.toNat = 12 then ['\\', 'f']
  else if c.toNat < 32 then
    ['\\', 'u', '0', '0', hexDigit (c.toNat / 16), hexDigit (c.toNat % 16)]
  else [c]

/-- A text as a string in quotes. -/
def quote (t : Text) : Text :=
  '"' :: t.flatMap escape ++ ['"']

/-- The written form of a truth value. -/
def renderBool (b : Bool) : Text :=
  if b then "true".toList else "false".toList

mutual

/-- The compact form of a value. -/
def compact : Json → Text
  | .null => "null".toList
  | .bool b => renderBool b
  | .number n => n.render
  | .string t => quote t
  | .array items => '[' :: compactItems items ++ [']']
  | .object members => '{' :: compactMembers members ++ ['}']

/-- The compact form of the items of an array. -/
def compactItems : List Json → Text
  | [] => []
  | [j] => compact j
  | j :: rest => compact j ++ ',' :: compactItems rest

/-- The compact form of the members of an object. -/
def compactMembers : List (Text × Json) → Text
  | [] => []
  | [(name, j)] => quote name ++ ':' :: compact j
  | (name, j) :: rest => quote name ++ ':' :: compact j ++ ',' :: compactMembers rest

end

/-- A line break and the white space before an entry of a level. -/
def newLine (level : Nat) : Text :=
  '\n' :: List.replicate (2 * level) ' '

mutual

/-- The indented form of a value that stands at a level. -/
def indented (level : Nat) : Json → Text
  | .array (j :: rest) => '[' :: indentedItems (level + 1) (j :: rest) ++ newLine level ++ [']']
  | .object (m :: rest) =>
    '{' :: indentedMembers (level + 1) (m :: rest) ++ newLine level ++ ['}']
  | .array [] => "[]".toList
  | .object [] => "\x7b\x7d".toList
  | .null => "null".toList
  | .bool b => renderBool b
  | .number n => n.render
  | .string t => quote t

/-- The indented form of the items of an array. -/
def indentedItems (level : Nat) : List Json → Text
  | [] => []
  | [j] => newLine level ++ indented level j
  | j :: rest => newLine level ++ indented level j ++ ',' :: indentedItems level rest

/-- The indented form of the members of an object. -/
def indentedMembers (level : Nat) : List (Text × Json) → Text
  | [] => []
  | [(name, j)] => newLine level ++ quote name ++ ": ".toList ++ indented level j
  | (name, j) :: rest =>
    newLine level ++ quote name ++ ": ".toList ++ indented level j ++
      ',' :: indentedMembers level rest

end

/-- The indented form of a value. -/
def pretty (j : Json) : Text :=
  indented 0 j

end PromptScript.Json
