import PromptScript.Document.Basic
import PromptScript.Token

/-!
# Items

The tokens of a script group into items: a header, a statement with the rest of its line, a
fragment of text, a reference with all that belongs to it, or a stray token with what is skipped
after it. The grouping looks at the tokens alone, so a document is one step per item.
-/

namespace PromptScript

/-- What follows the name and the target of a reference. -/
inductive Item.Tail where
  /-- Nothing that belongs to it. -/
  | none
  /-- A body in braces: the opening brace, the tokens inside, and the brace or the end of the
  script that closes it. -/
  | braced (opening : Token) (inner : List Token) (closing : Option Token)
  /-- A brace or quote that is never closed, and the text taken as the body. -/
  | unterminated (mark : Token) (recovered : List Token)
  deriving DecidableEq, Repr

/-- A group of tokens that acts as one. -/
inductive Item where
  /-- A section header. -/
  | header (token : Token) (kind : SectionKind)
  /-- The keyword of a statement, and the rest of its line. -/
  | statement (keyword : Token) (rest : Option Token)
  /-- A fragment of text. -/
  | text (token : Token)
  /-- A reference: its at sign, name, target and what follows. -/
  | reference (start : Token) (name target : Option Token) (tail : Item.Tail)
  /-- A token that has no place in the grammar, and the tokens skipped after it. -/
  | stray (token : Token) (skipped : List Token)
  deriving DecidableEq, Repr

namespace Item

/-- The first token if it is of a kind, and the tokens after it. -/
def takeKind (kind : Token.Kind) : List Token → Option Token × List Token
  | [] => (Option.none, [])
  | t :: rest => if t.kind = kind then (some t, rest) else (Option.none, t :: rest)

/-- The tokens of a body inside so many braces, the token that closes it, and the tokens after. -/
def splitBraced (depth : Nat) : List Token → List Token × Option Token × List Token
  | [] => ([], Option.none, [])
  | t :: rest =>
    if t.kind = .eof ∨ (t.kind = .braceClose ∧ depth ≤ 1) then ([], some t, rest)
    else
      let inside :=
        if t.kind = .braceOpen then depth + 1
        else if t.kind = .braceClose then depth - 1
        else depth
      let (inner, closing, after) := splitBraced inside rest
      (t :: inner, closing, after)

/-- The run of text tokens at the front, and the tokens after it. -/
def splitText (tokens : List Token) : List Token × List Token :=
  (tokens.takeWhile (·.kind == .text), tokens.dropWhile (·.kind == .text))

/-- Whether parsing can resume at a token. -/
def resumes (t : Token) : Bool :=
  t.kind == .referenceStart || t.kind == .sectionKeyword || t.kind == .statementKeyword ||
    t.kind == .eof

/-- The tokens through the end of the line or up to one where parsing can resume, and the tokens
after them. -/
def splitSkipped : List Token → List Token × List Token
  | [] => ([], [])
  | t :: rest =>
    if resumes t then ([], t :: rest)
    else if t.endsLine then ([t], rest)
    else
      let (skipped, after) := splitSkipped rest
      (t :: skipped, after)

/-- A stray token with what is skipped after it, and the tokens after that. -/
def strayItem (t : Token) (rest : List Token) : Item × List Token :=
  if t.endsLine then (.stray t [], rest)
  else
    let (skipped, after) := splitSkipped rest
    (.stray t skipped, after)

/-- What follows the name and the target of a reference, and the tokens after it. -/
def splitTail : List Token → Tail × List Token
  | [] => (.none, [])
  | t :: rest =>
    if t.kind = .braceOpen then
      let (inner, closing, after) := splitBraced 1 rest
      (.braced t inner closing, after)
    else if t.kind = .error then
      let (recovered, after) := splitText rest
      (.unterminated t recovered, after)
    else (.none, t :: rest)

/-- The item that begins with a token, and the tokens after it. -/
def first (t : Token) (rest : List Token) : Item × List Token :=
  match t.kind with
  | .sectionKeyword =>
    match SectionKind.ofHeader? t.text with
    | some kind => (.header t kind, rest)
    | none => strayItem t rest
  | .statementKeyword =>
    let (line, after) := takeKind .text rest
    (.statement t line, after)
  | .text => (.text t, rest)
  | .referenceStart =>
    let (name, afterName) := takeKind .identifier rest
    let (target, afterTarget) := takeKind .target afterName
    let (tail, after) := splitTail afterTarget
    (.reference t name target tail, after)
  | _ => strayItem t rest

/-- Taking a token of a kind leaves no more tokens. -/
theorem length_takeKind_le (kind : Token.Kind) (tokens : List Token) :
    (takeKind kind tokens).2.length ≤ tokens.length := by
  cases tokens with
  | nil => simp [takeKind]
  | cons t rest =>
    rw [takeKind]
    split <;> simp

/-- Taking a body leaves no more tokens. -/
theorem length_splitBraced_le (depth : Nat) (tokens : List Token) :
    (splitBraced depth tokens).2.2.length ≤ tokens.length := by
  induction tokens generalizing depth with
  | nil => simp [splitBraced]
  | cons t rest ih =>
    rw [splitBraced]
    split
    · simp
    · exact Nat.le_succ_of_le (ih _)

/-- Skipping to where parsing resumes leaves no more tokens. -/
theorem length_splitSkipped_le (tokens : List Token) :
    (splitSkipped tokens).2.length ≤ tokens.length := by
  induction tokens with
  | nil => simp [splitSkipped]
  | cons t rest ih =>
    rw [splitSkipped]
    split
    · simp
    · split
      · simp
      · exact Nat.le_succ_of_le ih

/-- What follows a name takes tokens from the front. -/
theorem length_splitTail_le (tokens : List Token) :
    (splitTail tokens).2.length ≤ tokens.length := by
  cases tokens with
  | nil => simp [splitTail]
  | cons t rest =>
    rw [splitTail]
    split
    · exact Nat.le_succ_of_le (length_splitBraced_le 1 rest)
    · split
      · exact Nat.le_succ_of_le (List.dropWhile_suffix _).length_le
      · simp

/-- A stray token leaves no more tokens than stand after it. -/
theorem length_strayItem_le (t : Token) (rest : List Token) :
    (strayItem t rest).2.length ≤ rest.length := by
  rw [strayItem]
  split
  · simp
  · exact length_splitSkipped_le rest

/-- An item takes at least the token that it begins with. -/
theorem length_first_le (t : Token) (rest : List Token) :
    (first t rest).2.length ≤ rest.length := by
  unfold first
  split
  · split
    · exact Nat.le_refl _
    · exact length_strayItem_le t rest
  · exact length_takeKind_le .text rest
  · exact Nat.le_refl _
  · exact Nat.le_trans (length_splitTail_le _)
      (Nat.le_trans (length_takeKind_le .target _) (length_takeKind_le .identifier _))
  · exact length_strayItem_le t rest

/-- The items of a list of tokens, up to the end of the script. -/
def ofTokens : List Token → List Item
  | [] => []
  | t :: rest =>
    if t.kind = .eof then [] else (first t rest).1 :: ofTokens (first t rest).2
termination_by tokens => tokens.length
decreasing_by exact Nat.lt_succ_of_le (length_first_le t rest)

end Item

end PromptScript
