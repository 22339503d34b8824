import PromptScript.Number.Real

/-!
# Setting values

Settings come from several sources as trees of values. Tables merge key by key; any other value
replaces what was there. The case of a name does not matter: tables keep their names in lower case.
Values convert to the type that is asked for where that makes sense.
-/

namespace PromptScript

/-- A value of a setting. -/
inductive Setting where
  /-- No value. -/
  | nil
  /-- A truth value. -/
  | bool (value : Bool)
  /-- An integer. -/
  | int (value : Int)
  /-- A floating point number. -/
  | real (value : Real)
  /-- A text. -/
  | text (value : Text)
  /-- A list of values. -/
  | array (items : List Setting)
  /-- Values by their names. -/
  | table (members : List (Text × Setting))
  deriving Repr, Inhabited

namespace Setting

/-- The members of a table; none for any other value. -/
def members : Setting → List (Text × Setting)
  | .table members => members
  | _ => []

/-- The items of an array; none for any other value. -/
def items : Setting → List Setting
  | .array items => items
  | _ => []

/-- Sets the value of a name in a list of members. -/
def setMember (name : Text) (value : Setting) : List (Text × Setting) → List (Text × Setting)
  | [] => [(name, value)]
  | entry :: rest =>
    if entry.1 = name then (name, value) :: rest else entry :: setMember name value rest

/-- The value of a name in a list of members. -/
def getMember (name : Text) (members : List (Text × Setting)) : Setting :=
  (members.lookup name).getD .nil

mutual

/-- Puts a value under a name. A table is merged into the table that is there. -/
def put (name : Text) (root : Setting) : Setting → Setting
  | .table incoming =>
    let target := (root.members.lookup name).getD (.table [])
    .table (setMember name (putAll target incoming) root.members)
  | value => .table (setMember name value root.members)

/-- Puts values under their names in lower case. -/
def putAll (root : Setting) : List (Text × Setting) → Setting
  | [] => root
  | (name, value) :: rest => putAll (put (Text.lower name) root value) rest

end

/-- A step from a value into one of its parts. -/
inductive Step where
  /-- To the member of a name. -/
  | name (name : Text)
  /-- To the item at an index. -/
  | index (index : Nat)
  deriving DecidableEq, Repr

/-- Changes the part of a value that steps lead to; parts that are missing are made. -/
def update (change : Setting → Setting) : List Step → Setting → Setting
  | [], value => change value
  | .name name :: rest, value =>
    .table (setMember name (update change rest (getMember name value.members)) value.members)
  | .index index :: rest, value =>
    let items := value.items ++ List.replicate (index + 1 - value.items.length) .nil
    .array (items.set index (update change rest (items.getD index .nil)))

/-- Puts a value at the end of steps. -/
def putAt (path : List Step) (value root : Setting) : Setting :=
  match path.getLast? with
  | none => root
  | some (.name name) => update (fun parent => put name parent value) path.dropLast root
  | some (.index _) => update (fun _ => value) path root

/-- Characters of a name in a path. -/
def isPathChar (c : Char) : Bool :=
  c.isAlphanum || c == '_' || c == '-' || c == ' '

/-- The steps after the first name of a path, in at most `fuel` steps. -/
def stepsFrom? : Nat → Text → Option (List Step)
  | _, [] => some []
  | 0, _ :: _ => none
  | fuel + 1, '.' :: rest =>
    let name := rest.takeWhile isPathChar
    if name.isEmpty then none
    else (stepsFrom? fuel (rest.dropWhile isPathChar)).map (.name name :: ·)
  | fuel + 1, '[' :: rest =>
    let digits := rest.takeWhile Char.isDigit
    match rest.dropWhile Char.isDigit with
    | ']' :: after =>
      if digits.isEmpty then none
      else (stepsFrom? fuel after).map (.index (Real.digitsValue digits) :: ·)
    | _ => none
  | _ + 1, _ :: _ => none

/-- The steps that a key stands for: names in lower case joined by points, and indices in brackets.
A key of another form is one name. -/
def pathOf (key : Text) : List Step :=
  let key := Text.lower key
  let name := key.takeWhile isPathChar
  let steps := if name.isEmpty then none else stepsFrom? key.length (key.dropWhile isPathChar)
  match steps with
  | some steps => .name name :: steps
  | none => [.name key]

/-- Puts keyed values into a tree, each at the end of the path that its key stands for. -/
def putKeyed (root : Setting) (entries : List (Text × Setting)) : Setting :=
  entries.foldl (fun root entry => putAt (pathOf entry.1) entry.2 root) root

/-- The text of a value. -/
def toText? : Setting → Option Text
  | .text t => some t
  | .bool b => some (if b then "true".toList else "false".toList)
  | .int n => some ((if n < 0 then ['-'] else []) ++ Text.ofNat n.natAbs)
  | .real x => some x.render
  | _ => none

/-- The natural number that a text writes in decimal. -/
def natOfText? (t : Text) : Option Nat :=
  let digits := (Text.dropStart? ['+'] t).getD t
  if digits.isEmpty ∨ !digits.all Char.isDigit then none else some (Real.digitsValue digits)

/-- Whether an integer fits in 64 bits, one of them for its sign. -/
def fits (n : Int) : Bool :=
  if n < 0 then n.natAbs ≤ 1 <<< 63 else n.natAbs < 1 <<< 63

/-- The integer of 64 bits that a text writes in decimal. -/
def intOfText? (t : Text) : Option Int :=
  let (negative, digits) := match t with
    | '-' :: rest => (true, rest)
    | '+' :: rest => (false, rest)
    | _ => (false, t)
  if digits.isEmpty ∨ !digits.all Char.isDigit then none
  else
    let n : Int := if negative then -(Real.digitsValue digits : Int) else Real.digitsValue digits
    if fits n then some n else none

/-- The natural number of a value: truth counts as one, fractions are rounded. -/
def toNat? : Setting → Option Nat
  | .int n => if 0 ≤ n then some n.toNat else none
  | .bool b => some (if b then 1 else 0)
  | .real x => some x.roundNat
  | .text t =>
    let word := Text.lower t
    if ["true".toList, "on".toList, "yes".toList].contains word then some 1
    else if ["false".toList, "off".toList, "no".toList].contains word then some 0
    else natOfText? t
  | _ => none

/-- A field of a record, which is a table or an array of its fields in order. -/
def field? (name : String) (place : Nat) : Setting → Option Setting
  | .table members => members.lookup name.toList
  | .array items => items[place]?
  | _ => none

end Setting

end PromptScript
