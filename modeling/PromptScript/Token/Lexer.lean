import PromptScript.Piece
import PromptScript.Token

/-!
# Lexing

The lexer walks over the pieces of a script and gives them their meaning in context. Headers,
statements and comments count only at the start of a line; an at sign opens a reference unless it
is glued to a word; braces matter only in the body of a reference, and a brace or quote that is
never closed becomes an error token. Lexing never fails, and each step either takes a piece or
moves the lexer towards its end.
-/

namespace PromptScript

/-- Where in a construct the lexer stands. -/
inductive Lexer.Mode where
  /-- In running text. -/
  | text
  /-- Just past the at sign of a reference, before the name glued to it. -/
  | afterAt (name : Text)
  /-- Past the name of a reference; a target or a body may follow. -/
  | afterName
  /-- Past the target of a reference; a body may follow. -/
  | afterTarget
  /-- In the body of a reference, inside so many braces. -/
  | body (depth : Nat)
  /-- Just past the keyword of a statement; the rest of the line follows. -/
  | statement
  /-- Past the end of the script. -/
  | done
  deriving DecidableEq, Repr

/-- The lexer's place in a script. -/
structure Lexer where
  /-- Where in a construct the lexer stands. -/
  mode : Lexer.Mode
  /-- Whether only white space was seen since the last line break. -/
  lineStart : Bool
  /-- The character just passed, if any. -/
  before : Option Char
  /-- The place of the next character. -/
  place : Position
  /-- The pieces not yet taken. -/
  pieces : List Piece
  deriving Repr

namespace Lexer

/-- The lexer at the start of a script. -/
def ofText (source : Text) : Lexer :=
  ⟨.text, true, none, .start, Piece.scan source⟩

/-- A run of horizontal white space at the front of the pieces, and the pieces after it. -/
def splitSpace : List Piece → Text × List Piece
  | [] => ([], [])
  | p :: rest => if p.kind = .space then (p.text, rest) else ([], p :: rest)

/-- The rest of a line with its line break, and the pieces after it. -/
def splitLine : List Piece → Text × List Piece
  | [] => ([], [])
  | p :: rest =>
    if p.kind = .newline then (p.text, rest)
    else (p.text ++ (splitLine rest).1, (splitLine rest).2)

/-- Whether a reference begins here: an at sign that is not glued to a word and is followed by a
name or a brace. -/
def startsReference (before : Option Char) : List Piece → Bool
  | [] => false
  | p :: rest =>
    p.kind == .at && !before.any Text.joinsWord &&
      (1 < p.text.length || rest.head?.any (·.kind == .leftBrace))

/-- A section header at the front of the pieces, and the pieces after it. -/
def header? : List Piece → Option (Text × List Piece)
  | [] => none
  | p :: rest =>
    if p.kind = .sectionWord then
      match splitSpace rest with
      | (space, colon :: after) =>
        if colon.kind = .punct ∧ colon.text = [':'] then
          some (p.text ++ space ++ colon.text, after)
        else none
      | _ => none
    else none

/-- The second word of a statement keyword, by its first. -/
def secondWord? : Piece.Kind → Option Piece.Kind
  | .forWord => some .eachWord
  | .callWord => some .apiWord
  | .onWord => some .errorWord
  | _ => none

/-- A statement keyword at the front of the pieces, and the pieces after it. -/
def statement? : List Piece → Option (Text × List Piece)
  | [] => none
  | p :: rest =>
    if p.kind = .ifWord ∨ p.kind = .elseWord ∨ p.kind = .endWord then some (p.text, rest)
    else
      match secondWord? p.kind, rest with
      | some second, space :: q :: after =>
        if space.kind = .space ∧ q.kind = second then
          some (p.text ++ space.text ++ q.text, after)
        else none
      | _, _ => none

/-- Text up to the next reference or through the next line break, and the pieces after it. -/
def splitText (before : Option Char) : List Piece → Text × List Piece
  | [] => ([], [])
  | p :: rest =>
    if startsReference before (p :: rest) then ([], p :: rest)
    else if p.kind = .newline then (p.text, rest)
    else
      (p.text ++ (splitText p.text.getLast? rest).1, (splitText p.text.getLast? rest).2)

/-- Text through the next double quote on the line, and the pieces after it. -/
def splitQuote? : List Piece → Option (Text × List Piece)
  | [] => none
  | p :: rest =>
    if p.kind = .newline then none
    else if p.kind = .quote then some (p.text, rest)
    else (splitQuote? rest).map fun parts => (p.text ++ parts.1, parts.2)

/-- Text up to the next brace or through the next line break, and the pieces after it. -/
def splitBody : List Piece → Text × List Piece
  | [] => ([], [])
  | p :: rest =>
    if p.kind = .leftBrace ∨ p.kind = .rightBrace then ([], p :: rest)
    else if p.kind = .newline then (p.text, rest)
    else (p.text ++ (splitBody rest).1, (splitBody rest).2)

/-- Whether the pieces close as many braces as are open. -/
def closes (depth : Nat) : List Piece → Bool
  | [] => false
  | p :: rest =>
    if p.kind = .leftBrace then closes (depth + 1) rest
    else if p.kind = .rightBrace then depth ≤ 1 || closes (depth - 1) rest
    else closes depth rest

/-- The lexer past a text that it takes. -/
def pass (l : Lexer) (text : Text) (pieces : List Piece) : Lexer :=
  { l with before := text.getLast?.or l.before, place := l.place.advance text, pieces := pieces }

/-- A token of the text that the lexer takes, and the lexer past it in a new mode. -/
def emit (l : Lexer) (kind : Token.Kind) (text : Text) (pieces : List Piece) (mode : Mode)
    (lineStart : Bool) : Token × Lexer :=
  (⟨kind, text, l.place⟩, { l.pass text pieces with mode := mode, lineStart := lineStart })

/-- Taking the rest of a line leaves no more pieces. -/
theorem length_splitLine_le (ps : List Piece) : (splitLine ps).2.length ≤ ps.length := by
  induction ps with
  | nil => simp [splitLine]
  | cons p rest ih =>
    rw [splitLine]
    split
    · simp
    · exact Nat.le_succ_of_le ih

/-- Taking the rest of a line leaves fewer pieces, if there are any. -/
theorem length_splitLine_lt {ps : List Piece} (h : ps ≠ []) :
    (splitLine ps).2.length < ps.length := by
  cases ps with
  | nil => exact absurd rfl h
  | cons p rest =>
    rw [splitLine]
    split
    · simp
    · exact Nat.lt_succ_of_le (length_splitLine_le rest)

/-- Taking white space leaves no more pieces. -/
theorem length_splitSpace_le (ps : List Piece) : (splitSpace ps).2.length ≤ ps.length := by
  cases ps with
  | nil => simp [splitSpace]
  | cons p rest =>
    rw [splitSpace]
    split <;> simp

/-- Whether the line that begins here is a comment. -/
def startsComment (ps : List Piece) : Bool :=
  (splitSpace ps).2.head?.any (·.kind == .hash)

/-- A comment has pieces. -/
theorem ne_nil_of_startsComment {ps : List Piece} (h : startsComment ps = true) : ps ≠ [] := by
  rintro rfl
  simp [startsComment, splitSpace] at h

/-- The lexer past the comment lines before it. -/
def skipComments (l : Lexer) : Lexer :=
  if _h : startsComment l.pieces = true then
    skipComments (l.pass (splitLine l.pieces).1 (splitLine l.pieces).2)
  else l
termination_by l.pieces.length
decreasing_by exact length_splitLine_lt (ne_nil_of_startsComment ‹_›)

/-- A construct that counts only at the start of a line: a header, a statement keyword, or the
white space before one of them or before a reference. -/
def leading? (l : Lexer) : Option (Token × Lexer) :=
  match splitSpace l.pieces with
  | (space, lead) =>
    if !space.isEmpty &&
        ((header? lead).isSome || (statement? lead).isSome ||
          startsReference space.getLast? lead) then
      some (l.emit .text space lead .text true)
    else
      match header? lead, statement? lead with
      | some (text, after), _ => some (l.emit .sectionKeyword text after .text false)
      | none, some (text, after) => some (l.emit .statementKeyword text after .statement false)
      | none, none => none

/-- The next token of running text that is not a construct of line starts. -/
def running (l : Lexer) : Token × Lexer :=
  match l.pieces with
  | [] => l.emit .eof [] [] .done l.lineStart
  | p :: rest =>
    if startsReference l.before (p :: rest) then
      l.emit .referenceStart (p.text.take 1) rest (.afterAt (p.text.drop 1)) false
    else
      match splitText l.before (p :: rest) with
      | (text, after) =>
        l.emit .text text after .text
          (Text.endsLine text || (l.lineStart && Text.isBlank text))

/-- The next token of running text. -/
def inText (l : Lexer) : Token × Lexer :=
  if l.lineStart then
    match l.skipComments.leading? with
    | some result => result
    | none => l.skipComments.running
  else l.running

/-- The next token past the target of a reference: the brace that opens its body, or else one of
running text. -/
def inReference (l : Lexer) : Token × Lexer :=
  match splitSpace l.pieces with
  | (space, p :: rest) =>
    if p.kind = .leftBrace then
      if closes 1 rest then
        (l.pass space (p :: rest)).emit .braceOpen p.text rest (.body 1) l.lineStart
      else (l.pass space (p :: rest)).emit .error p.text rest .text l.lineStart
    else l.inText
  | (_, []) => l.inText

/-- The next token past the name of a reference: its target, or else what may follow a target. -/
def inName (l : Lexer) : Token × Lexer :=
  match l.pieces with
  | p :: rest =>
    if p.kind = .quote ∧ l.before = some ':' then
      match splitQuote? rest with
      | some (text, after) => l.emit .target (p.text ++ text) after .afterTarget l.lineStart
      | none => l.emit .error p.text rest .text false
    else l.inReference
  | [] => l.inReference

/-- The next token of the body of a reference. -/
def inBody (l : Lexer) (depth : Nat) : Token × Lexer :=
  match l.pieces with
  | [] => l.inText
  | p :: rest =>
    if p.kind = .leftBrace then l.emit .braceOpen p.text rest (.body (depth + 1)) l.lineStart
    else if p.kind = .rightBrace then
      l.emit .braceClose p.text rest (if depth ≤ 1 then .text else .body (depth - 1)) l.lineStart
    else
      match splitBody (p :: rest) with
      | (text, after) => l.emit .text text after (.body depth) l.lineStart

/-- The next token past the keyword of a statement: the rest of its line, if there is any. -/
def inStatement (l : Lexer) : Token × Lexer :=
  match l.pieces with
  | [] => { l with lineStart := true }.inText
  | p :: rest =>
    match splitLine (p :: rest) with
    | (text, after) => l.emit .text text after .text true

/-- The next token and the lexer past it; nothing past the end of the script. -/
def next? (l : Lexer) : Option (Token × Lexer) :=
  match l.mode with
  | .done => none
  | .text => some l.inText
  | .afterAt [] => some l.inName
  | .afterAt (c :: name) => some (l.emit .identifier (c :: name) l.pieces .afterName l.lineStart)
  | .afterName => some l.inName
  | .afterTarget => some l.inReference
  | .body depth => some (l.inBody depth)
  | .statement => some l.inStatement

/-- What a mode adds to the tokens that may still come. -/
def Mode.weight : Mode → Nat
  | .done => 0
  | .afterAt _ => 2
  | _ => 1

/-- A bound on the tokens that may still come. -/
def size (l : Lexer) : Nat :=
  2 * l.pieces.length + l.mode.weight

/-- Past a token, the bound counts the pieces that are left and the mode. -/
theorem size_emit (l : Lexer) (kind : Token.Kind) (text : Text) (pieces : List Piece)
    (mode : Mode) (lineStart : Bool) :
    (l.emit kind text pieces mode lineStart).2.size = 2 * pieces.length + mode.weight :=
  rfl

/-- Comments take pieces and give none. -/
theorem length_skipComments_le (l : Lexer) : l.skipComments.pieces.length ≤ l.pieces.length := by
  fun_induction skipComments l with
  | case1 l _ ih => exact Nat.le_trans ih (length_splitLine_le _)
  | case2 => exact Nat.le_refl _

/-- A header takes a piece at least. -/
theorem length_header?_lt {ps after : List Piece} {text : Text}
    (h : header? ps = some (text, after)) : after.length < ps.length := by
  cases ps with
  | nil => simp [header?] at h
  | cons p rest =>
    rw [header?] at h
    have hspace := length_splitSpace_le rest
    grind

/-- A statement keyword takes a piece at least. -/
theorem length_statement?_lt {ps after : List Piece} {text : Text}
    (h : statement? ps = some (text, after)) : after.length < ps.length := by
  unfold statement? at h
  split at h
  · cases h
  · split at h
    · cases h
      simp
    · split at h
      · split at h
        · cases h
          simp only [List.length_cons]
          omega
        · cases h
      · cases h

/-- Text takes pieces from the front. -/
theorem length_splitText_le (before : Option Char) (ps : List Piece) :
    (splitText before ps).2.length ≤ ps.length := by
  fun_induction splitText before ps <;> grind

/-- The text of a body takes pieces from the front. -/
theorem length_splitBody_le (ps : List Piece) : (splitBody ps).2.length ≤ ps.length := by
  fun_induction splitBody ps <;> grind

/-- A quoted text takes the quote that ends it. -/
theorem length_splitQuote?_lt {ps after : List Piece} {text : Text}
    (h : splitQuote? ps = some (text, after)) : after.length < ps.length := by
  fun_induction splitQuote? ps generalizing text after with
  | case1 => cases h
  | case2 => cases h
  | case3 => cases h; simp
  | case4 p rest _ _ ih =>
    obtain ⟨parts, hparts, heq⟩ := Option.map_eq_some_iff.mp h
    cases heq
    exact Nat.lt_succ_of_lt (ih hparts)

/-- After a construct of a line's start nothing is left but what its pieces leave. -/
theorem size_leading?_le {l : Lexer} {result : Token × Lexer} (h : l.leading? = some result) :
    result.2.size ≤ 2 * l.pieces.length := by
  have hspace := length_splitSpace_le l.pieces
  unfold leading? at h
  split at h
  rename_i space lead hsplit
  simp only [hsplit] at hspace
  split at h
  · rename_i hcond
    cases h
    rw [size_emit]
    have hlt : lead.length < l.pieces.length := by
      unfold splitSpace at hsplit
      grind
    simp only [Mode.weight]
    omega
  · split at h
    · rename_i hheader
      cases h
      rw [size_emit]
      have := length_header?_lt hheader
      simp only [Mode.weight]
      omega
    · rename_i hstatement
      cases h
      rw [size_emit]
      have := length_statement?_lt hstatement
      simp only [Mode.weight]
      omega
    · cases h

/-- After a token of running text the bound is at most that of the pieces. -/
theorem size_running_le (l : Lexer) : l.running.2.size ≤ 2 * l.pieces.length := by
  unfold running
  split
  · simp [size_emit, Mode.weight]
  · rename_i p rest hpieces
    rw [hpieces]
    split
    · rw [size_emit]
      simp only [Mode.weight, List.length_cons]
      omega
    · rename_i hstart
      rw [size_emit]
      have hlt : (splitText l.before (p :: rest)).2.length < (p :: rest).length := by
        rw [splitText, if_neg hstart]
        split
        · simp
        · exact Nat.lt_succ_of_le (length_splitText_le _ _)
      simp only [Mode.weight]
      omega

/-- A token between constructs brings the bound down to that of the pieces. -/
theorem size_inText_le (l : Lexer) : l.inText.2.size ≤ 2 * l.pieces.length := by
  have hskip := length_skipComments_le l
  unfold inText
  split
  · split
    · rename_i hleading
      have := size_leading?_le hleading
      omega
    · have := size_running_le l.skipComments
      omega
  · exact size_running_le l

/-- A token past a target brings the bound down to that of the pieces. -/
theorem size_inReference_le (l : Lexer) : l.inReference.2.size ≤ 2 * l.pieces.length := by
  have hspace := length_splitSpace_le l.pieces
  unfold inReference
  split
  · rename_i space p rest hsplit
    rw [hsplit] at hspace
    simp only [List.length_cons] at hspace
    split
    · split
      all_goals
        rw [size_emit]
        simp only [Mode.weight]
        omega
    · exact size_inText_le l
  · exact size_inText_le l

/-- A token past a name brings the bound down to that of the pieces. -/
theorem size_inName_le (l : Lexer) : l.inName.2.size ≤ 2 * l.pieces.length := by
  unfold inName
  split
  · rename_i p rest hpieces
    split
    · rw [hpieces]
      split
      · rename_i hquote
        have := length_splitQuote?_lt hquote
        rw [size_emit]
        simp only [Mode.weight, List.length_cons]
        omega
      · rw [size_emit]
        simp only [Mode.weight, List.length_cons]
        omega
    · exact size_inReference_le l
  · exact size_inReference_le l

/-- A token of a body brings the bound down to that of the pieces, whatever the depth. -/
theorem size_inBody_le (l : Lexer) (depth : Nat) :
    (l.inBody depth).2.size ≤ 2 * l.pieces.length := by
  unfold inBody
  split
  · exact size_inText_le l
  · rename_i p rest hpieces
    rw [hpieces]
    split
    · rw [size_emit]
      simp only [Mode.weight, List.length_cons]
      omega
    · split
      · rw [size_emit]
        split <;> simp only [Mode.weight, List.length_cons] <;> omega
      · rename_i hleft hright
        have hlt : (splitBody (p :: rest)).2.length < (p :: rest).length := by
          have := length_splitBody_le rest
          rw [splitBody]
          grind
        rw [size_emit]
        simp only [Mode.weight]
        omega

/-- The rest of a statement's line brings the bound down to that of the pieces. -/
theorem size_inStatement_le (l : Lexer) : l.inStatement.2.size ≤ 2 * l.pieces.length := by
  unfold inStatement
  split
  · exact size_inText_le { l with lineStart := true }
  · rename_i p rest hpieces
    have hlt : (splitLine (p :: rest)).2.length < (p :: rest).length :=
      length_splitLine_lt (by simp)
    rw [hpieces, size_emit]
    simp only [Mode.weight]
    omega

/-- Each token brings the lexer nearer to its end. -/
theorem size_next?_lt {l : Lexer} {result : Token × Lexer} (h : l.next? = some result) :
    result.2.size < l.size := by
  have htext := size_inText_le l
  have hname := size_inName_le l
  have hreference := size_inReference_le l
  have hstatement := size_inStatement_le l
  have hbody := size_inBody_le l
  unfold next? at h
  unfold size at *
  split at h
  · cases h
  all_goals
    cases h
    rename_i hmode
    rw [hmode]
    simp only [Mode.weight]
    first
    | exact Nat.lt_succ_of_le htext
    | exact Nat.lt_succ_of_le hreference
    | exact Nat.lt_succ_of_le hstatement
    | exact Nat.lt_succ_of_le (hbody _)
    | exact Nat.lt_succ_of_le hname
    | exact Nat.lt_succ_of_le (Nat.le_succ_of_le hname)
    | exact Nat.lt_succ_self _

/-- The tokens from here to the end of the script. -/
def tokens (l : Lexer) : List Token :=
  match _h : l.next? with
  | none => []
  | some (token, after) => token :: tokens after
termination_by l.size
decreasing_by exact size_next?_lt ‹_›

/-- The lexer after all tokens were drawn. -/
def drained (l : Lexer) : Lexer :=
  match _h : l.next? with
  | none => l
  | some (_, after) => drained after
termination_by l.size
decreasing_by exact size_next?_lt ‹_›

end Lexer

/-- The tokens of a script. -/
def Token.ofText (source : Text) : List Token :=
  (Lexer.ofText source).tokens

end PromptScript
