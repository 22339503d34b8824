import PromptScript.Settings.Value
import PromptScript.Text.Utf8

/-!
# TOML

Reading settings from a TOML document. Readers take a text and give what they read with the text
after it. A table may be opened by one header only, and no value may be given twice.
-/

namespace PromptScript.Toml

/-- A part of a document being read. -/
inductive Node where
  /-- A value; it cannot be added to. -/
  | value (value : Setting)
  /-- A table: whether no header of its own opened it, whether dotted keys made it, its members. -/
  | table (implicit dotted : Bool) (members : List (Text × Node))
  /-- The tables of an array, the last one first. -/
  | tables (items : List (List (Text × Node)))
  deriving Inhabited

mutual

/-- The value of a part of a document. -/
def Node.toSetting : Node → Setting
  | .value v => v
  | .table _ _ members => .table (membersToSettings members)
  | .tables items => .array (tablesToSettings items).reverse

/-- The values of the members of a table. -/
def membersToSettings : List (Text × Node) → List (Text × Setting)
  | [] => []
  | (name, node) :: rest => (name, node.toSetting) :: membersToSettings rest

/-- The values of the tables of an array. -/
def tablesToSettings : List (List (Text × Node)) → List Setting
  | [] => []
  | members :: rest => .table (membersToSettings members) :: tablesToSettings rest

end

/-- A table being read: whether it is implicit, whether it is dotted, and its members. -/
structure Table where
  /-- Whether no header of its own opened it. -/
  implicit : Bool
  /-- Whether dotted keys made it. -/
  dotted : Bool
  /-- Its members. -/
  members : List (Text × Node)

/-- Sets a member of a table. -/
def setNode (name : Text) (node : Node) : List (Text × Node) → List (Text × Node)
  | [] => [(name, node)]
  | entry :: rest =>
    if entry.1 = name then (name, node) :: rest else entry :: setNode name node rest

/-- Changes the table that a path of names leads to. Missing tables are made; dotted keys do not
lead through tables that a header opened. -/
def descend (dotted : Bool) (change : Table → Option Table) : List Text → Table → Option Table
  | [], t => change t
  | name :: rest, t =>
    let enter (child : Table) : Option Table := descend dotted change rest child
    match t.members.lookup name with
    | none => do
      let child ← enter ⟨true, dotted, []⟩
      some { t with
        members := t.members ++ [(name, .table child.implicit child.dotted child.members)] }
    | some (.value _) => none
    | some (.tables []) => none
    | some (.tables (last :: earlier)) =>
      if dotted then none
      else do
        let child ← enter ⟨false, false, last⟩
        some { t with members := setNode name (.tables (child.members :: earlier)) t.members }
    | some (.table implicit wasDotted members) =>
      if dotted && !implicit then none
      else do
        let child ← enter ⟨implicit, wasDotted, members⟩
        some { t with
          members :=
            setNode name (.table child.implicit child.dotted child.members) t.members }

/-- Adds a value under a key to a table. -/
def addValue (path : List Text) (name : Text) (value : Setting) (t : Table) : Option Table :=
  descend true (fun t =>
    if t.dotted == path.isEmpty || (t.members.lookup name).isSome then none
    else some { t with members := t.members ++ [(name, .value value)] }) path t

/-- Opens a table by its header. -/
def openTable (path : List Text) (name : Text) (t : Table) : Option Table :=
  descend false (fun t =>
    match t.members.lookup name with
    | none => some { t with members := t.members ++ [(name, .table false false [])] }
    | some (.table true false members) =>
      some { t with members := setNode name (.table false false members) t.members }
    | some _ => none) path t

/-- Opens a further table of an array by its header. -/
def openItem (path : List Text) (name : Text) (t : Table) : Option Table :=
  descend false (fun t =>
    match t.members.lookup name with
    | none => some { t with members := t.members ++ [(name, .tables [[]])] }
    | some (.tables items) =>
      some { t with members := setNode name (.tables ([] :: items)) t.members }
    | some _ => none) path t

/-- Adds a value under a key to the table that a header path leads to. -/
def addUnder (header path : List Text) (name : Text) (value : Setting) (t : Table) :
    Option Table :=
  descend false (addValue path name value) header t

/-- White space on a line. -/
def isGap (c : Char) : Bool :=
  c == ' ' || c == '\t'

/-- A text without the white space before it. -/
def skipGap (t : Text) : Text :=
  t.dropWhile isGap

/-- Characters that may stand in a comment. -/
def isCommentChar (c : Char) : Bool :=
  c == '\t' || 0x20 ≤ c.toNat

/-- Characters that may stand in a string. -/
def isStringChar (c : Char) : Bool :=
  c == '\t' || (0x20 ≤ c.toNat && c.toNat != 0x7F)

/-- Characters of a bare key. -/
def isBareChar (c : Char) : Bool :=
  c.isAlphanum || c == '_' || c == '-'

/-- The value of hexadecimal digits. -/
def hexOf? (digits : Text) : Option Nat :=
  digits.foldlM (fun n c =>
    if c.isDigit then some (n * 16 + (c.toNat - '0'.toNat))
    else if 'a' ≤ c ∧ c ≤ 'f' then some (n * 16 + (c.toNat - 'a'.toNat + 10))
    else if 'A' ≤ c ∧ c ≤ 'F' then some (n * 16 + (c.toNat - 'A'.toNat + 10))
    else none) 0

/-- The character of an escape by its digits, and the text after them. -/
def numbered? (count : Nat) (t : Text) : Option (Char × Text) := do
  let digits := t.take count
  if digits.length < count then none
  else (Text.charOf? (← hexOf? digits)).map fun c => (c, t.drop count)

/-- The character of an escape, read from past its backslash, and the text after it. -/
def escape? : Text → Option (Char × Text)
  | 'b' :: rest => some ('\x08', rest)
  | 't' :: rest => some ('\t', rest)
  | 'n' :: rest => some ('\n', rest)
  | 'f' :: rest => some ('\x0c', rest)
  | 'r' :: rest => some ('\r', rest)
  | '"' :: rest => some ('"', rest)
  | '\\' :: rest => some ('\\', rest)
  | 'u' :: rest => numbered? 4 rest
  | 'U' :: rest => numbered? 8 rest
  | _ => none

/-- A basic string from past its opening quote, in at most `fuel` characters. -/
def basic? : Nat → Text → Option (Text × Text)
  | _, [] => none
  | 0, _ => none
  | _ + 1, '"' :: rest => some ([], rest)
  | fuel + 1, '\\' :: rest => do
    let (c, rest) ← escape? rest
    (basic? fuel rest).map fun parts => (c :: parts.1, parts.2)
  | fuel + 1, c :: rest =>
    if isStringChar c then (basic? fuel rest).map fun parts => (c :: parts.1, parts.2) else none

/-- A literal string from past its opening quote. -/
def literal? : Text → Option (Text × Text)
  | [] => none
  | c :: rest =>
    if c = '\'' then some ([], rest)
    else if isStringChar c then (literal? rest).map fun parts => (c :: parts.1, parts.2)
    else none

/-- A text without the line break that it begins with, if it does. -/
def dropBreak : Text → Text
  | '\n' :: rest => rest
  | '\r' :: '\n' :: rest => rest
  | t => t

/-- Whether a text goes on, after white space, with a line break. -/
def breaksLine (t : Text) : Bool :=
  match skipGap t with
  | '\n' :: _ => true
  | '\r' :: '\n' :: _ => true
  | _ => false

/-- A text without the white space and line breaks that it begins with. -/
def skipBreaks (t : Text) : Text :=
  t.dropWhile fun c => isGap c || c == '\n' || c == '\r'

/-- The end of a string of several lines: three quotes, with up to two more before them that belong
to the string. Gives the quotes that belong to it and the text after it. -/
def closing? (quote : Char) (t : Text) : Option (Text × Text) :=
  let count := (t.takeWhile (· == quote)).length
  if count < 3 then none
  else
    let extra := min (count - 3) 2
    some (List.replicate extra quote, t.drop (extra + 3))

/-- A string of several lines from past its opening quotes, with or without escapes, in at most
`fuel` characters. -/
def multiline? (quote : Char) (escapes : Bool) : Nat → Text → Option (Text × Text)
  | 0, _ => none
  | fuel + 1, t =>
    match closing? quote t, t with
    | some parts, _ => some parts
    | none, [] => none
    | none, '\r' :: '\n' :: rest =>
      (multiline? quote escapes fuel rest).map fun parts => ('\n' :: parts.1, parts.2)
    | none, c :: rest =>
      if c = '\\' ∧ escapes = true then
        if breaksLine rest then multiline? quote escapes fuel (skipBreaks rest)
        else do
          let (c, rest) ← escape? rest
          (multiline? quote escapes fuel rest).map fun parts => (c :: parts.1, parts.2)
      else if isStringChar c ∨ c = '\n' then
        (multiline? quote escapes fuel rest).map fun parts => (c :: parts.1, parts.2)
      else none

/-- A string, and the text after it. -/
def string? : Text → Option (Text × Text)
  | '"' :: '"' :: '"' :: rest => multiline? '"' true (rest.length + 1) (dropBreak rest)
  | '"' :: rest => basic? (rest.length + 1) rest
  | '\'' :: '\'' :: '\'' :: rest => multiline? '\'' false (rest.length + 1) (dropBreak rest)
  | '\'' :: rest => literal? rest
  | _ => none

/-- A name of a key, and the text after it. -/
def name? (t : Text) : Option (Text × Text) :=
  match t with
  | '"' :: rest => basic? (rest.length + 1) rest
  | '\'' :: rest => literal? rest
  | _ =>
    let name := t.takeWhile isBareChar
    if name.isEmpty then none else some (name, t.dropWhile isBareChar)

/-- The names of a key joined by points, in at most `fuel` names, and the text after the key. -/
def key? : Nat → Text → Option (List Text × Text)
  | 0, _ => none
  | fuel + 1, t => do
    let (name, rest) ← name? (skipGap t)
    match skipGap rest with
    | '.' :: rest => (key? fuel rest).map fun parts => (name :: parts.1, parts.2)
    | rest => some ([name], rest)

/-- A key split into the names before its last one, and its last one. -/
def splitKey (names : List Text) : List Text × Text :=
  (names.dropLast, names.getLast?.getD [])

/-- Digits with single underscores between them. -/
def plainDigits? (p : Char → Bool) (t : Text) : Option Text :=
  let parts := t.splitOn '_'
  if t.isEmpty ∨ parts.any (fun part => part.isEmpty || !part.all p) then none
  else some parts.flatten

/-- The value of digits to a base. -/
def ofBase (base : Nat) (digits : Text) : Nat :=
  digits.foldl (fun n c =>
    let d := if c.isDigit then c.toNat - '0'.toNat else c.toLower.toNat - 'a'.toNat + 10
    n * base + d) 0

/-- An integer if it fits in 64 bits. -/
def fit? (n : Int) : Option Setting :=
  if Setting.fits n then some (.int n) else none

/-- Hexadecimal digits. -/
def isHex (c : Char) : Bool :=
  c.isDigit || ('a' ≤ c && c ≤ 'f') || ('A' ≤ c && c ≤ 'F')

/-- A sign and what it stands before. -/
def splitSign : Text → Bool × Text
  | '-' :: rest => (true, rest)
  | '+' :: rest => (false, rest)
  | t => (false, t)

/-- Decimal digits without a leading zero. -/
def wholeDigits? (t : Text) : Option Text := do
  let digits ← plainDigits? Char.isDigit t
  if digits.head? = some '0' ∧ 1 < t.length then none else some digits

/-- The integer that a word writes. -/
def integer? (word : Text) : Option Setting :=
  match word with
  | '0' :: 'x' :: rest => (plainDigits? isHex rest).bind fun d => fit? (ofBase 16 d)
  | '0' :: 'o' :: rest =>
    (plainDigits? (fun c => '0' ≤ c && c ≤ '7') rest).bind fun d => fit? (ofBase 8 d)
  | '0' :: 'b' :: rest =>
    (plainDigits? (fun c => c == '0' || c == '1') rest).bind fun d => fit? (ofBase 2 d)
  | _ => do
    let (negative, digits) := splitSign word
    let n : Int := ofBase 10 (← wholeDigits? digits)
    fit? (if negative then -n else n)

/-- The exponent of a number past its mark. -/
def exponent? (t : Text) : Option Int := do
  let (negative, digits) := splitSign t
  let n : Int := ofBase 10 (← plainDigits? Char.isDigit digits)
  some (if negative then -n else n)

/-- The number that the digits before a point, those after it and an exponent write. Numbers too
great to write are refused. -/
def scaled? (negative : Bool) (whole fraction : Text) (exponent : Int) : Option Setting :=
  match Real.ofDecimal negative (ofBase 10 (whole ++ fraction)) (exponent - fraction.length) with
  | .infinite false => none
  | x => some (.real x)

/-- The floating point number that a word writes. -/
def real? (word : Text) : Option Setting := do
  let (negative, t) := splitSign word
  if t = "inf".toList then some (.real (.infinite negative))
  else if t = "nan".toList then some (.real .nan)
  else
    let isMark (c : Char) : Bool := c == 'e' || c == 'E'
    let (mantissa, exponent) := match Text.splitFirst? isMark t with
      | some (mantissa, exponent) => (mantissa, some exponent)
      | none => (t, none)
    let (whole, fraction) := match Text.splitFirst? (· == '.') mantissa with
      | some (whole, fraction) => (whole, some fraction)
      | none => (mantissa, none)
    if fraction.isNone ∧ exponent.isNone then none
    else
      let whole ← wholeDigits? whole
      let fraction ← match fraction with
        | some digits => plainDigits? Char.isDigit digits
        | none => some []
      let exponent ← match exponent with
        | some digits => exponent? digits
        | none => some 0
      scaled? negative whole fraction exponent

/-- A number of exactly so many digits, and the text after it. -/
def fixed? (count : Nat) (t : Text) : Option (Nat × Text) :=
  let digits := t.take count
  if digits.length = count ∧ digits.all Char.isDigit then some (ofBase 10 digits, t.drop count)
  else none

/-- The days of a month. -/
def daysOf (year month : Nat) : Nat :=
  if month = 2 then
    if year % 4 = 0 ∧ (year % 100 ≠ 0 ∨ year % 400 = 0) then 29 else 28
  else if month = 4 ∨ month = 6 ∨ month = 9 ∨ month = 11 then 30
  else 31

/-- The text after a given character. -/
def after? (c : Char) : Text → Option Text
  | d :: rest => if c = d then some rest else none
  | [] => none

/-- A calendar date as written, and the text after it. -/
def date? (t : Text) : Option (Text × Text) := do
  let (year, rest) ← fixed? 4 t
  let (month, rest) ← fixed? 2 (← after? '-' rest)
  let (day, rest) ← fixed? 2 (← after? '-' rest)
  if 1 ≤ month ∧ month ≤ 12 ∧ 1 ≤ day ∧ day ≤ daysOf year month then some (t.take 10, rest)
  else none

/-- A time of day as written, without needless digits of its fraction, and the text after it. -/
def time? (t : Text) : Option (Text × Text) := do
  let (hour, rest) ← fixed? 2 t
  let (minute, rest) ← fixed? 2 (← after? ':' rest)
  let (second, rest) ← fixed? 2 (← after? ':' rest)
  if hour < 24 ∧ minute < 60 ∧ second ≤ 60 then
    match rest with
    | '.' :: more =>
      let digits := more.takeWhile Char.isDigit
      if digits.isEmpty then none
      else
        let kept := Text.trimEndChar '0' (digits.take 9)
        some (t.take 8 ++ (if kept.isEmpty then [] else '.' :: kept), more.dropWhile Char.isDigit)
    | _ => some (t.take 8, rest)
  else none

/-- An offset from universal time, and the text after it. -/
def offset? (t : Text) : Option (Text × Text) :=
  match t with
  | c :: rest =>
    if c = 'Z' ∨ c = 'z' then some (['Z'], rest)
    else if c = '+' ∨ c = '-' then do
      let (hour, more) ← fixed? 2 rest
      let (minute, more) ← fixed? 2 (← after? ':' more)
      if hour < 24 ∧ minute < 60 then some (t.take 6, more) else none
    else none
  | [] => none

/-- A date, a time or both, and the text after it. -/
def moment? (t : Text) : Option (Text × Text) :=
  match date? t with
  | none => time? t
  | some (date, rest) =>
    match rest with
    | c :: more =>
      if c = 'T' ∨ c = 't' ∨ c = ' ' then
        match time? more with
        | none => if c = ' ' then some (date, rest) else none
        | some (time, more) =>
          let (offset, more) := (offset? more).getD ([], more)
          some (date ++ 'T' :: time ++ offset, more)
      else some (date, rest)
    | [] => some (date, rest)

/-- Characters of a number. -/
def isNumberChar (c : Char) : Bool :=
  c.isAlphanum || c == '_' || c == '.' || c == '+' || c == '-'

/-- A number or a time, and the text after it. -/
def number? (t : Text) : Option (Setting × Text) :=
  match moment? t with
  | some (moment, rest) => some (.text moment, rest)
  | none =>
    let word := t.takeWhile isNumberChar
    ((integer? word).or (real? word)).map fun value => (value, t.dropWhile isNumberChar)

/-- A text past a comment. Nothing if the comment holds a character that it may not. -/
def skipComment? (t : Text) : Option Text :=
  match t with
  | '#' :: rest =>
    match rest.dropWhile isCommentChar with
    | [] => some []
    | '\n' :: rest => some ('\n' :: rest)
    | '\r' :: '\n' :: rest => some ('\n' :: rest)
    | _ => none
  | _ => some t

/-- A text past white space, line breaks and comments, in at most `fuel` lines. -/
def skipLines? : Nat → Text → Option Text
  | 0, _ => none
  | fuel + 1, t =>
    match skipGap t with
    | '\n' :: rest => skipLines? fuel rest
    | '\r' :: '\n' :: rest => skipLines? fuel rest
    | '#' :: rest => do skipLines? fuel (← skipComment? ('#' :: rest))
    | rest => some rest

/-- The text past white space, line breaks and comments. -/
def skipAll? (t : Text) : Option Text :=
  skipLines? (2 * t.length + 1) t

mutual

/-- A value and the text after it, in at most `fuel` nested steps. -/
def value? : Nat → Text → Option (Setting × Text)
  | 0, _ => none
  | fuel + 1, t =>
    match t with
    | '"' :: _ => (string? t).map fun parts => (.text parts.1, parts.2)
    | '\'' :: _ => (string? t).map fun parts => (.text parts.1, parts.2)
    | 't' :: 'r' :: 'u' :: 'e' :: rest => some (.bool true, rest)
    | 'f' :: 'a' :: 'l' :: 's' :: 'e' :: rest => some (.bool false, rest)
    | '[' :: rest => (items? fuel rest).map fun parts => (.array parts.1, parts.2)
    | '{' :: rest =>
      match skipGap rest with
      | '}' :: after => some (.table [], after)
      | _ =>
        (pairs? fuel ⟨false, false, []⟩ rest).map fun parts =>
          (.table (membersToSettings parts.1.members), parts.2)
    | _ => number? t

/-- The items of an array through its closing bracket, and the text after it. -/
def items? : Nat → Text → Option (List Setting × Text)
  | 0, _ => none
  | fuel + 1, t => do
    match ← skipAll? t with
    | ']' :: rest => some ([], rest)
    | opened =>
      let (item, rest) ← value? fuel opened
      match ← skipAll? rest with
      | ']' :: rest => some ([item], rest)
      | ',' :: rest => (items? fuel rest).map fun parts => (item :: parts.1, parts.2)
      | _ => none

/-- The pairs of an inline table through its closing brace, added to a table, and the text after
it. -/
def pairs? : Nat → Table → Text → Option (Table × Text)
  | 0, _, _ => none
  | fuel + 1, table, t => do
    let (names, rest) ← key? t.length t
    let (value, rest) ← value? fuel (skipGap (← after? '=' rest))
    let (path, name) := splitKey names
    let table ← addValue path name value table
    match skipGap rest with
    | '}' :: rest => some (table, rest)
    | ',' :: rest => pairs? fuel table rest
    | _ => none

end

/-- The text past the end of a line, which may hold white space and a comment. -/
def endLine? (t : Text) : Option Text := do
  match ← skipComment? (skipGap t) with
  | [] => some []
  | '\n' :: rest => some rest
  | '\r' :: '\n' :: rest => some rest
  | _ => none

/-- A document being read: its root, and the path of the table that is open. -/
structure Progress where
  /-- The root of the document. -/
  root : Table
  /-- The names that lead to the open table. -/
  header : List Text

/-- A line of a document and what is read so far, in at most `fuel` lines. -/
def lines? : Nat → Progress → Text → Option Progress
  | 0, _, _ => none
  | fuel + 1, p, t => do
    match ← skipAll? t with
    | [] => some p
    | '[' :: '[' :: rest =>
      let (names, rest) ← key? rest.length rest
      let rest ← after? ']' (← after? ']' rest)
      let (path, name) := splitKey names
      lines? fuel ⟨← openItem path name p.root, names⟩ (← endLine? rest)
    | '[' :: rest =>
      let (names, rest) ← key? rest.length rest
      let rest ← after? ']' rest
      let (path, name) := splitKey names
      lines? fuel ⟨← openTable path name p.root, names⟩ (← endLine? rest)
    | line =>
      let (names, rest) ← key? line.length line
      let opened := skipGap (← after? '=' rest)
      let (value, rest) ← value? (2 * opened.length + 1) opened
      let (path, name) := splitKey names
      lines? fuel ⟨← addUnder p.header path name value p.root, p.header⟩ (← endLine? rest)

/-- The members of the root of a document. A mark of the byte order before it is skipped. -/
def ofText? (t : Text) : Option (List (Text × Setting)) := do
  let t := match t with
    | c :: rest => if c.toNat = 0xFEFF then rest else t
    | [] => t
  let p ← lines? (t.length + 1) ⟨⟨false, false, []⟩, []⟩ t
  some (membersToSettings p.root.members)

end PromptScript.Toml
