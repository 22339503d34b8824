import PromptScript.Text.Blank

/-!
# Cutting text

Cutting off a given start or end, splitting at the first occurrence of a character, a text or a
whole word, and the decimal form of a natural number.
-/

namespace PromptScript.Text

/-- The text after a given start, if the text has that start. -/
def dropStart? : Text → Text → Option Text
  | [], t => some t
  | _ :: _, [] => none
  | a :: lead, c :: t => if a = c then dropStart? lead t else none

/-- The text before a given last character, if the text ends in it. -/
def dropLast? (c : Char) (t : Text) : Option Text :=
  if t.getLast? = some c then some t.dropLast else none

/-- The text without the repetitions of a character at its end. -/
def trimEndChar (c : Char) (t : Text) : Text :=
  (t.reverse.dropWhile (· == c)).reverse

/-- The text without the repetitions of a character at its two ends. -/
def trimChar (c : Char) (t : Text) : Text :=
  trimEndChar c (t.dropWhile (· == c))

/-- Splits around the first character of a class. -/
def splitFirst? (p : Char → Bool) : Text → Option (Text × Text)
  | [] => none
  | c :: rest =>
    if p c then some ([], rest)
    else (splitFirst? p rest).map fun parts => (c :: parts.1, parts.2)

/-- Splits around the first occurrence of a non-empty text. -/
def splitOnce? (needle : Text) : Text → Option (Text × Text)
  | [] => none
  | c :: rest =>
    match dropStart? needle (c :: rest) with
    | some after => some ([], after)
    | none => (splitOnce? needle rest).map fun parts => (c :: parts.1, parts.2)

/-- Whether a text is empty or begins with white space. -/
def opensBlank : Text → Bool
  | [] => true
  | c :: _ => isSpace c

/-- Splits around the first whole occurrence of a word; `free` says whether white space or the
start of the text comes just before. -/
def splitWordFrom? (word : Text) (free : Bool) : Text → Option (Text × Text)
  | [] => none
  | c :: rest =>
    match (if free then dropStart? word (c :: rest) else none).filter opensBlank with
    | some after => some ([], after)
    | none => (splitWordFrom? word (isSpace c) rest).map fun parts => (c :: parts.1, parts.2)

/-- Splits around the first occurrence of a word that stands between white space or at an end of
the text. Both parts are trimmed. -/
def splitWord? (word t : Text) : Option (Text × Text) :=
  (splitWordFrom? word true t).map fun parts => (trim parts.1, trim parts.2)

/-- Removes one pair of surrounding double quotes. -/
def unquote (t : Text) : Text :=
  ((dropStart? ['"'] t).bind (dropLast? '"')).getD t

/-- ASCII letters in lower case, all else as it is. -/
def lower (t : Text) : Text :=
  t.map Char.toLower

/-- The decimal digits of a natural number. -/
def ofNat (n : Nat) : Text :=
  Nat.toDigits 10 n

/-- Texts joined by a separator. -/
def join (separator : Text) (parts : List Text) : Text :=
  separator.intercalate parts

end PromptScript.Text
