import PromptScript.Settings.Environment
import PromptScript.Text.Utf8
import PromptScript.Text.WordClass

/-!
# Files of variables

A file of variables holds entries `NAME=value`, one a line; a value in quotes may go on over several
lines. Single quotes keep their text as it is. Elsewhere a backslash takes the next character by
itself, and `$NAME` or a name in braces after a dollar sign stands for the value of a variable.
Reading ends at the first entry that is not well formed. Variables that are set are kept.
-/

namespace PromptScript.VariableFile

/-- Where in the quotes of an entry a character stands. -/
inductive Quoting where
  /-- Outside quotes. -/
  | plain
  /-- Outside quotes, past one character of white space. -/
  | gap
  /-- Outside quotes, past a backslash. -/
  | escape
  /-- In single quotes. -/
  | single
  /-- In single quotes, past a backslash. -/
  | singleEscape
  /-- In double quotes. -/
  | double
  /-- In double quotes, past a backslash. -/
  | doubleEscape
  deriving DecidableEq, Repr

/-- The place past a character outside quotes that is not white space. -/
def Quoting.past (c : Char) : Quoting :=
  if c = '\\' then .escape else if c = '"' then .double else if c = '\'' then .single else .plain

/-- The place past a character. -/
def Quoting.next (c : Char) : Quoting → Quoting
  | .plain => if Text.isSpace c ∧ c ≠ '\n' ∧ c ≠ '\r' then .gap else .past c
  | .gap => .past c
  | .escape => .plain
  | .single => if c = '\\' then .singleEscape else if c = '\'' then .plain else .single
  | .singleEscape => .single
  | .double => if c = '\\' then .doubleEscape else if c = '"' then .plain else .double
  | .doubleEscape => .double

/-- A line up to a comment, and the place at its end; none if it ends in a comment. -/
def cutComment (q : Quoting) : Text → Text × Option Quoting
  | [] => ([], some q)
  | c :: rest =>
    if q = .gap ∧ c = '#' then ([], none)
    else
      let (kept, after) := cutComment (q.next c) rest
      (c :: kept, after)

/-- The lines of a sequence of bytes, each with its line break. -/
def byteLines : List UInt8 → List (List UInt8)
  | [] => []
  | b :: rest =>
    if b = 10 then [b] :: byteLines rest
    else
      match byteLines rest with
      | [] => [[b]]
      | line :: others => (b :: line) :: others

/-- The entries in lines of bytes, the first of them continuing a text from a place in its quotes.
They end at a line that is not text and with the last entry that is complete. -/
def entriesFrom (opened : Text) (q : Quoting) : List (List UInt8) → List Text
  | [] => []
  | bytes :: rest =>
    match Text.ofUtf8? bytes with
    | none => []
    | some line =>
      if (Text.trimStart (opened ++ line)).head? = some '#' then entriesFrom [] .plain rest
      else
        match cutComment q line with
        | (kept, none) => (opened ++ kept) :: entriesFrom [] .plain rest
        | (kept, some .plain) => (opened ++ kept) :: entriesFrom [] .plain rest
        | (kept, some q) => entriesFrom (opened ++ kept) q rest

/-- Bytes without a mark of the byte order before them. -/
def dropMark : List UInt8 → List UInt8
  | 0xEF :: 0xBB :: 0xBF :: rest => rest
  | bytes => bytes

/-- The entries of a file. -/
def entries (bytes : List UInt8) : List Text :=
  entriesFrom [] .plain (byteLines (dropMark bytes))

/-- Where in a value a character stands. -/
inductive Place where
  /-- In text, in double quotes or outside quotes. -/
  | text (quoted : Bool)
  /-- Past a backslash. -/
  | escape (quoted : Bool)
  /-- In single quotes. -/
  | single
  /-- In the name of a variable. -/
  | name (quoted : Bool) (name : Text)
  /-- In the name of a variable in braces. -/
  | braced (quoted : Bool) (name : Text)
  /-- Past the end of the value. -/
  | past
  deriving DecidableEq, Repr

/-- The character that an escaped one stands for. -/
def unescape? (c : Char) : Option Char :=
  if c = 'n' then some '\n'
  else if c = '\\' ∨ c = '\'' ∨ c = '"' ∨ c = '$' ∨ c = ' ' then some c
  else none

/-- The value that a text writes from a place on, given the values of variables. -/
def value? (valueOf : Text → Text) : Place → Text → Option Text
  | .text quoted, [] => if quoted then none else some []
  | .escape quoted, [] => if quoted then none else some []
  | .single, [] => none
  | .name quoted name, [] => if quoted then none else some (valueOf name)
  | .braced _ _, [] => none
  | .past, [] => some []
  | .text quoted, c :: rest =>
    if c = '$' then value? valueOf (.name quoted []) rest
    else if c = '\\' then value? valueOf (.escape quoted) rest
    else if c = '"' then value? valueOf (.text !quoted) rest
    else if c = '\'' ∧ quoted = false then value? valueOf .single rest
    else if (c = ' ' ∨ c = '\t') ∧ quoted = false then value? valueOf .past rest
    else (value? valueOf (.text quoted) rest).map (c :: ·)
  | .escape quoted, c :: rest => do
    let c ← unescape? c
    (value? valueOf (.text quoted) rest).map (c :: ·)
  | .single, c :: rest =>
    if c = '\'' then value? valueOf (.text false) rest
    else (value? valueOf .single rest).map (c :: ·)
  | .name quoted name, c :: rest =>
    if Text.isAlphanumeric c then value? valueOf (.name quoted (name ++ [c])) rest
    else if c = '\x7b' ∧ name = [] then value? valueOf (.braced quoted []) rest
    else if c = '$' then (value? valueOf (.name quoted []) rest).map (valueOf name ++ ·)
    else (value? valueOf (.text quoted) rest).map (valueOf name ++ c :: ·)
  | .braced quoted name, c :: rest =>
    if c = '\x7d' then (value? valueOf (.text quoted) rest).map (valueOf name ++ ·)
    else value? valueOf (.braced quoted (name ++ [c])) rest
  | .past, c :: rest =>
    if c = '#' then some []
    else if c = ' ' ∨ c = '\t' then value? valueOf .past rest
    else none

/-- Whether a text is empty or a comment. -/
def isVoid (t : Text) : Bool :=
  t.isEmpty || t.head? == some '#'

/-- Characters of a name. -/
def isNameChar (c : Char) : Bool :=
  c.isAlphanum || c == '_' || c == '.'

/-- The name at the front of a text, and the text after it and after white space. -/
def name? (t : Text) : Option (Text × Text) :=
  match t with
  | c :: _ =>
    if c.isAlpha || c == '_' then
      some (t.takeWhile isNameChar, Text.trimStart (t.dropWhile isNameChar))
    else none
  | [] => none

/-- The name that an entry sets, and what stands past its equals sign. A name may have the word
`export` before it. -/
def split? (t : Text) : Option (Text × Text) := do
  let (name, rest) ← name? t
  match Text.dropStart? ['='] rest with
  | some written => some (name, written)
  | none =>
    if name = "export".toList then
      let (name, rest) ← name? rest
      (Text.dropStart? ['='] rest).map fun written => (name, written)
    else none

/-- The variables with what an entry sets; nothing if the entry is not well formed. -/
def addEntry? (env : Environment) (entry : Text) : Option Environment :=
  let t := Text.trim entry
  if isVoid t then some env
  else do
    let (name, written) ← split? t
    let written := Text.trimStart written
    if isVoid written then some (env.setNew name [])
    else
      let value ← value? (fun name => (env.get? name).getD []) (.text false) written
      some (env.setNew name value)

/-- The variables with what entries set up to the first that is not well formed. -/
def addEntries (env : Environment) : List Text → Environment
  | [] => env
  | entry :: rest =>
    match addEntry? env entry with
    | none => env
    | some env => addEntries env rest

/-- The variables with what a file sets. -/
def load (env : Environment) (bytes : List UInt8) : Environment :=
  addEntries env (entries bytes)

end PromptScript.VariableFile
