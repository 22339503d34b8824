import PromptScript.Json.Value
import PromptScript.Text.Utf8

/-!
# Reading JSON

Text is first read into a tree that keeps the strings and numerals as written. What a tree stands
for is decided after that, since a part of a text that nobody asks for need only be well formed:
its numbers may be too great, its escapes may name no character and it may be nested deeply.
-/

namespace PromptScript.Json

/-- A JSON text as written: order and repetition of members are kept, strings are still escaped. -/
inductive Tree where
  /-- The null value. -/
  | null
  /-- A truth value. -/
  | bool (value : Bool)
  /-- A numeral. -/
  | number (numeral : Numeral)
  /-- What stands between the quotes of a string. -/
  | string (escaped : Text)
  /-- An array. -/
  | array (items : List Tree)
  /-- An object. -/
  | object (members : List (Text × Tree))
  deriving Repr, Inhabited

/-- The white space between the parts of a JSON text. -/
def isGap (c : Char) : Bool :=
  c == ' ' || c == '\t' || c == '\n' || c == '\r'

/-- A text without the white space before it. -/
def skipGap (t : Text) : Text :=
  t.dropWhile isGap

/-- The value of a hexadecimal digit. -/
def hexValue? (c : Char) : Option Nat :=
  if '0' ≤ c ∧ c ≤ '9' then some (c.toNat - '0'.toNat)
  else if 'a' ≤ c ∧ c ≤ 'f' then some (c.toNat - 'a'.toNat + 10)
  else if 'A' ≤ c ∧ c ≤ 'F' then some (c.toNat - 'A'.toNat + 10)
  else none

/-- The value of four hexadecimal digits. -/
def hexUnit? (a b c d : Char) : Option Nat := do
  some (((← hexValue? a) * 16 + (← hexValue? b)) * 256 + (← hexValue? c) * 16 + (← hexValue? d))

/-- What stands between the quotes of a string, read from just past the opening quote, and the text
past the closing one. Escapes are checked for their form alone. -/
def readEscaped? : Text → Option (Text × Text)
  | [] => none
  | '"' :: rest => some ([], rest)
  | '\\' :: 'u' :: a :: b :: c :: d :: rest =>
    if (hexUnit? a b c d).isSome then
      (readEscaped? rest).map fun parts => ('\\' :: 'u' :: a :: b :: c :: d :: parts.1, parts.2)
    else none
  | '\\' :: c :: rest =>
    if "\"\\/bfnrt".toList.contains c then
      (readEscaped? rest).map fun parts => ('\\' :: c :: parts.1, parts.2)
    else none
  | c :: rest =>
    if c.toNat < 32 ∨ c = '\\' then none
    else (readEscaped? rest).map fun parts => (c :: parts.1, parts.2)

/-- The character of a short escape. -/
def shortEscape (c : Char) : Char :=
  if c = 'b' then '\x08' else if c = 'f' then '\x0c' else if c = 'n' then '\n'
  else if c = 'r' then '\r' else if c = 't' then '\t' else c

/-- The text that the inside of a string stands for; nothing if a surrogate stands alone. -/
def unescape? : Text → Option Text
  | [] => some []
  | '\\' :: 'u' :: a :: b :: c :: d :: rest => do
    let unit ← hexUnit? a b c d
    if 0xD800 ≤ unit ∧ unit < 0xDC00 then
      match rest with
      | '\\' :: 'u' :: a :: b :: c :: d :: rest =>
        let low ← hexUnit? a b c d
        if 0xDC00 ≤ low ∧ low < 0xE000 then
          let c ← Text.charOf? (0x10000 + (unit - 0xD800) * 0x400 + (low - 0xDC00))
          (unescape? rest).map (c :: ·)
        else none
      | _ => none
    else
      let c ← Text.charOf? unit
      (unescape? rest).map (c :: ·)
  | '\\' :: c :: rest => (unescape? rest).map (shortEscape c :: ·)
  | c :: rest => (unescape? rest).map (c :: ·)

/-- The digits at the front of a text, and the text after them. -/
def splitDigits (t : Text) : Text × Text :=
  (t.takeWhile Char.isDigit, t.dropWhile Char.isDigit)

/-- The digits before the point of a numeral: one zero, or digits that begin otherwise. -/
def readWhole? (t : Text) : Option (Text × Text) :=
  match t with
  | '0' :: rest => some (['0'], rest)
  | c :: _ => if c.isDigit then some (splitDigits t) else none
  | [] => none

/-- At least one digit. -/
def readDigits? (t : Text) : Option (Text × Text) :=
  match splitDigits t with
  | ([], _) => none
  | parts => some parts

/-- The point of a numeral and the digits after it, if there is a point. -/
def readFraction? : Text → Option (Option Text × Text)
  | '.' :: rest => (readDigits? rest).map fun parts => (some parts.1, parts.2)
  | t => some (none, t)

/-- The digits of an exponent past its mark. -/
def readExponentDigits? : Text → Option (Option (Bool × Text) × Text)
  | '+' :: rest => (readDigits? rest).map fun parts => (some (false, parts.1), parts.2)
  | '-' :: rest => (readDigits? rest).map fun parts => (some (true, parts.1), parts.2)
  | t => (readDigits? t).map fun parts => (some (false, parts.1), parts.2)

/-- The exponent of a numeral, if there is one. -/
def readExponent? : Text → Option (Option (Bool × Text) × Text)
  | 'e' :: rest => readExponentDigits? rest
  | 'E' :: rest => readExponentDigits? rest
  | t => some (none, t)

/-- A numeral and the text after it. -/
def readNumeral? (t : Text) : Option (Numeral × Text) := do
  let (negative, t) := match t with
    | '-' :: rest => (true, rest)
    | _ => (false, t)
  let (whole, t) ← readWhole? t
  let (fraction, t) ← readFraction? t
  let (exponent, t) ← readExponent? t
  some (⟨negative, whole, fraction, exponent⟩, t)

mutual

/-- A value and the text after it, read in at most `fuel` nested steps. -/
def readValue? : Nat → Text → Option (Tree × Text)
  | 0, _ => none
  | fuel + 1, t =>
    match skipGap t with
    | 'n' :: 'u' :: 'l' :: 'l' :: rest => some (.null, rest)
    | 't' :: 'r' :: 'u' :: 'e' :: rest => some (.bool true, rest)
    | 'f' :: 'a' :: 'l' :: 's' :: 'e' :: rest => some (.bool false, rest)
    | '"' :: rest => (readEscaped? rest).map fun parts => (.string parts.1, parts.2)
    | '[' :: rest =>
      match skipGap rest with
      | ']' :: after => some (.array [], after)
      | items => (readItems? fuel items).map fun parts => (.array parts.1, parts.2)
    | '{' :: rest =>
      match skipGap rest with
      | '}' :: after => some (.object [], after)
      | members => (readMembers? fuel members).map fun parts => (.object parts.1, parts.2)
    | other => (readNumeral? other).map fun parts => (.number parts.1, parts.2)

/-- The items of an array through its closing bracket, and the text after it. -/
def readItems? : Nat → Text → Option (List Tree × Text)
  | 0, _ => none
  | fuel + 1, t => do
    let (item, after) ← readValue? fuel t
    match skipGap after with
    | ']' :: rest => some ([item], rest)
    | ',' :: rest => (readItems? fuel rest).map fun parts => (item :: parts.1, parts.2)
    | _ => none

/-- The members of an object through its closing brace, and the text after it. -/
def readMembers? : Nat → Text → Option (List (Text × Tree) × Text)
  | 0, _ => none
  | fuel + 1, t =>
    match skipGap t with
    | '"' :: opened => do
      let (name, after) ← readEscaped? opened
      match skipGap after with
      | ':' :: rest =>
        let (value, after) ← readValue? fuel rest
        match skipGap after with
        | '}' :: rest => some ([(name, value)], rest)
        | ',' :: rest =>
          (readMembers? fuel rest).map fun parts => ((name, value) :: parts.1, parts.2)
        | _ => none
      | _ => none
    | _ => none

end

/-- The tree of a JSON text with nothing but white space around it. Each step of the reader takes
a character at the latest in its second call, which bounds the steps. -/
def Tree.ofText? (t : Text) : Option Tree :=
  match readValue? (2 * t.length + 2) t with
  | some (tree, rest) => if (skipGap rest).isEmpty then some tree else none
  | none => none

/-- How many arrays and objects may stand inside each other. -/
def maxDepth : Nat := 127

/-- How the text that a string stands for is found from what is written between its quotes. -/
abbrev Unquoting := Text → Option Text

/-- Strings of a text that was read from bytes which were not decoded: the bytes are decoded for
each string that is asked for. -/
def unescapeBytes? : Unquoting := fun written =>
  (Text.ofUtf8? (Text.toBytes written)).bind unescape?

mutual

/-- The value of a tree whose containers may be nested to a depth. -/
def Tree.value? (string? : Unquoting) (depth : Nat) : Tree → Option Json
  | .null => some .null
  | .bool b => some (.bool b)
  | .number n => n.number?.map .number
  | .string t => (string? t).map .string
  | .array items =>
    if depth = 0 then none else (itemValues? string? (depth - 1) items).map .array
  | .object members =>
    if depth = 0 then none
    else (memberValues? string? (depth - 1) members).map fun found =>
      ofDictionary (Dictionary.ofList found)

/-- The values of the items of an array. -/
def itemValues? (string? : Unquoting) (depth : Nat) : List Tree → Option (List Json)
  | [] => some []
  | tree :: rest => do
    let value ← tree.value? string? depth
    (itemValues? string? depth rest).map (value :: ·)

/-- The values of the members of an object, in the order they are written. -/
def memberValues? (string? : Unquoting) (depth : Nat) :
    List (Text × Tree) → Option (List (Text × Json))
  | [] => some []
  | (name, tree) :: rest => do
    let name ← string? name
    let value ← tree.value? string? depth
    (memberValues? string? depth rest).map ((name, value) :: ·)

end

/-- The value of a JSON text. -/
def ofText? (t : Text) : Option Json := do
  (← Tree.ofText? t).value? unescape? maxDepth

end PromptScript.Json
