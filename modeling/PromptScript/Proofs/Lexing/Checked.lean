import PromptScript.Proofs.Text.Offsets
import PromptScript.Token.Lexer

/-!
# The lexer over byte offsets

The lexer as it walks over a script in place: it keeps the list of pieces with their byte offsets,
an index into that list and an offset into the script, and cuts its tokens out of the script by
offset. Scanning gives every character a piece, so no piece is an error. Every index into the list,
every slice of the script and every subtraction is checked: a step gives nothing if a check fails,
and a loop that does not end gives nothing either.
-/

namespace PromptScript

/-- Where a piece stands in a script. -/
structure Lexeme where
  /-- What the piece is. -/
  kind : Piece.Kind
  /-- The offset of its first byte. -/
  start : Nat
  /-- The offset just past its last byte. -/
  stop : Nat
  deriving DecidableEq, Repr

/-- Where pieces in a row stand, from an offset on. -/
def Lexeme.ofPieces (offset : Nat) : List Piece → List Lexeme
  | [] => []
  | p :: rest =>
    ⟨p.kind, offset, offset + Text.byteLength p.text⟩ ::
      ofPieces (offset + Text.byteLength p.text) rest

/-- Where in a construct the lexer over offsets stands. -/
inductive CheckedLexer.Mode where
  /-- In running text. -/
  | text
  /-- Just past the at sign of a reference; a name may follow. -/
  | afterAt
  /-- Past the name of a reference; a target or a body may follow. -/
  | afterName
  /-- Past the target of a reference; a body may follow. -/
  | afterTarget
  /-- In the body of a reference, inside so many braces. -/
  | body (depth : Nat)
  /-- Just past the keyword of a statement; the rest of the line follows. -/
  | statement
  /-- Past the end of the script. -/
  | done
  deriving DecidableEq, Repr

/-- The place of the lexer over offsets in a script. -/
structure CheckedLexer where
  /-- The script. -/
  source : Text
  /-- The pieces of the script. -/
  raw : List Lexeme
  /-- The index of the first piece that ends after the offset. -/
  cursor : Nat
  /-- The offset of the next character. -/
  pos : Nat
  /-- The place of the next character. -/
  place : Position
  /-- Whether only white space was seen since the last line break. -/
  lineStart : Bool
  /-- Where in a construct the lexer stands. -/
  mode : CheckedLexer.Mode
  deriving DecidableEq, Repr

namespace CheckedLexer

open Text (byteLength slice?)

/-- The lexer over offsets at the start of a script. -/
def ofText (source : Text) : CheckedLexer :=
  ⟨source, Lexeme.ofPieces 0 (Piece.scan source), 0, 0, .start, true, .text⟩

/-- Whether there is a piece of a kind at an index. -/
def is (m : CheckedLexer) (index : Nat) (kind : Piece.Kind) : Bool :=
  m.raw[index]?.any (·.kind == kind)

/-- The pieces from an index on. -/
def from? (m : CheckedLexer) (index : Nat) : Option (List Lexeme) :=
  if index ≤ m.raw.length then some (m.raw.drop index) else none

/-- The text of the piece at an index; it is empty if there is no such piece. -/
def text? (m : CheckedLexer) (index : Nat) : Option Text :=
  match m.raw[index]? with
  | none => some []
  | some l => slice? m.source l.start l.stop

/-- Where the piece at an index begins, or the end of the script if there is no such piece. -/
def startOf (m : CheckedLexer) (index : Nat) : Nat :=
  match m.raw[index]? with
  | none => byteLength m.source
  | some l => l.start

/-- The index of the piece past white space at an index. -/
def skipSpace (m : CheckedLexer) (index : Nat) : Nat :=
  if m.is index .space then index + 1 else index

/-- The end of the line that the piece at an index is on, with its line break. -/
def lineEnd? (m : CheckedLexer) (index : Nat) : Option Nat := do
  let rest ← m.from? (min index m.raw.length)
  match rest.find? (·.kind == .newline) with
  | none => some (byteLength m.source)
  | some l => some l.stop

/-- Whether a reference begins at an index. -/
def startsReference? (m : CheckedLexer) (index : Nat) : Option Bool :=
  match m.raw[index]? with
  | none => some false
  | some l =>
    if l.kind ≠ .at then some false
    else do
      let before ← slice? m.source 0 l.start
      if before.getLast?.any Text.joinsWord then some false
      else do
        let width ← sub? l.stop l.start
        some (1 < width || m.is (index + 1) .leftBrace)

/-- The end of a section header that begins at an index. -/
def headerEnd? (m : CheckedLexer) (index : Nat) : Option (Option Nat) :=
  if m.is index .sectionWord then
    let colon := m.skipSpace (index + 1)
    if m.is colon .punct then do
      let text ← m.text? colon
      if text = [':'] then do
        let l ← m.raw[colon]?
        some (some l.stop)
      else some none
    else some none
  else some none

/-- The end of a statement keyword that begins at an index. -/
def statementEnd? (m : CheckedLexer) (index : Nat) : Option (Option Nat) :=
  match m.raw[index]? with
  | none => some none
  | some l =>
    if l.kind = .ifWord ∨ l.kind = .elseWord ∨ l.kind = .endWord then some (some l.stop)
    else
      match Lexer.secondWord? l.kind with
      | none => some none
      | some second =>
        if m.is (index + 1) .space && m.is (index + 2) second then do
          let l ← m.raw[index + 2]?
          some (some l.stop)
        else some none

/-- Whether white space at the cursor stands before a reference or what counts only at the start of
a line. -/
def indents? (m : CheckedLexer) (lead : Nat) (leads : Bool) : Option Bool :=
  if m.cursor < lead then
    if leads then some true else m.startsReference? lead
  else some false

/-- The end of a fragment of text that goes on with the given pieces, the first of which has the
given index. -/
def textEnd? (m : CheckedLexer) (stop index : Nat) : List Lexeme → Option Nat
  | [] => some stop
  | l :: rest => do
    let starts ← m.startsReference? index
    if starts then some stop
    else if l.kind = .newline then some l.stop
    else m.textEnd? l.stop (index + 1) rest

/-- The end of a fragment of text that begins with the piece at the cursor. -/
def fragmentEnd? (m : CheckedLexer) (first : Lexeme) : Option Nat :=
  if first.kind = .newline then some first.stop
  else do
    let rest ← m.from? (m.cursor + 1)
    m.textEnd? first.stop (m.cursor + 1) rest

/-- The end of a fragment of a body. -/
def bodyEnd (stop : Nat) : List Lexeme → Nat
  | [] => stop
  | l :: rest =>
    if l.kind = .leftBrace ∨ l.kind = .rightBrace then l.start
    else if l.kind = .newline then l.stop
    else bodyEnd stop rest

/-- Whether the pieces close all braces, so many of which are open. -/
def balanced? (depth : Nat) : List Lexeme → Option Bool
  | [] => some false
  | l :: rest =>
    if l.kind = .leftBrace then balanced? (depth + 1) rest
    else if l.kind = .rightBrace then do
      let inside ← sub? depth 1
      if inside = 0 then some true else balanced? inside rest
    else balanced? depth rest

/-- The lexer in a mode, with a line begun or not. -/
def enter (m : CheckedLexer) (mode : Mode) (lineStart : Bool) : CheckedLexer :=
  { m with mode := mode, lineStart := lineStart }

/-- The lexer moved to an offset. -/
def advanceTo? (m : CheckedLexer) (stop : Nat) : Option CheckedLexer := do
  let passed ← slice? m.source m.pos stop
  let ended := (m.raw.drop m.cursor).takeWhile (·.stop ≤ stop)
  some { m with place := m.place.advance passed, pos := stop, cursor := m.cursor + ended.length }

/-- A token that ends at an offset, and the lexer moved there. -/
def emit? (m : CheckedLexer) (kind : Token.Kind) (stop : Nat) :
    Option (Token × CheckedLexer) := do
  let text ← slice? m.source m.pos stop
  let after ← m.advanceTo? stop
  some (⟨kind, text, m.place⟩, after)

/-- A construct that counts only at the start of a line, where the pieces at the cursor are not
those of a comment. -/
def leading? (m : CheckedLexer) : Option (Option (Token × CheckedLexer)) := do
  let lead := m.skipSpace m.cursor
  let header ← m.headerEnd? lead
  let statement ← m.statementEnd? lead
  let indents ← m.indents? lead (header.isSome || statement.isSome)
  if indents then (m.emit? .text (m.startOf lead)).map some
  else
    match header, statement with
    | some stop, _ => ((m.enter m.mode false).emit? .sectionKeyword stop).map some
    | none, some stop =>
      ((m.enter .statement false).emit? .statementKeyword stop).map some
    | none, none => some none

/-- The next token of running text that is not a construct of line starts. -/
def running? (m : CheckedLexer) (first : Lexeme) : Option (Token × CheckedLexer) := do
  let starts ← m.startsReference? m.cursor
  if starts then
    (m.enter .afterAt false).emit? .referenceStart (m.pos + 1)
  else do
    let stop ← m.fragmentEnd? first
    let (token, after) ← m.emit? .text stop
    some (token,
      after.enter after.mode (Text.endsLine token.text || (m.lineStart && token.isBlank)))

/-- The next token of running text. -/
def inText? (m : CheckedLexer) : Option (Token × CheckedLexer) :=
  match m.raw[m.cursor]? with
  | none => (m.enter .done m.lineStart).emit? .eof m.pos
  | some first =>
    if m.lineStart then
      if m.is (m.skipSpace m.cursor) .hash then do
        let stop ← m.lineEnd? (m.skipSpace m.cursor)
        let after ← m.advanceTo? stop
        after |>.inText?
      else do
        let leading ← m.leading?
        match leading with
        | some result => some result
        | none => m.running? first
    else m.running? first
partial_fixpoint

/-- The end of the name glued to the at sign just passed, or the offset itself if there is none. -/
def nameEnd (m : CheckedLexer) : Nat :=
  match m.raw[m.cursor]? with
  | some l => if l.kind = .at ∧ l.start < m.pos then l.stop else m.pos
  | none => m.pos

/-- The rest of the line of a statement, if there is any. -/
def restOfLine? (m : CheckedLexer) : Option (Option (Token × CheckedLexer)) :=
  if byteLength m.source ≤ m.pos then some none
  else do
    let stop ← m.lineEnd? m.cursor
    ((m.enter .text true).emit? .text stop).map some

/-- The target of a reference, or the quote that opens it if it is never closed. -/
def target? (m : CheckedLexer) : Option (Option (Token × CheckedLexer)) := do
  let before ← slice? m.source 0 m.pos
  if before.getLast? = some ':' ∧ m.is m.cursor .quote then do
    let rest ← m.from? (m.cursor + 1)
    match (rest.takeWhile (·.kind != .newline)).findIdx? (·.kind == .quote) with
    | some offset => do
      let close ← m.raw[m.cursor + 1 + offset]?
      ((m.enter .afterTarget m.lineStart).emit? .target close.stop).map some
    | none => do
      let opening ← m.raw[m.cursor]?
      ((m.enter .text false).emit? .error opening.stop).map some
  else some none

/-- The brace at the cursor, which opens the body of a reference if it is closed. -/
def openBody? (m : CheckedLexer) : Option (Token × CheckedLexer) := do
  let rest ← m.from? m.cursor
  let balanced ← balanced? 0 rest
  if balanced then (m.enter (.body 1) m.lineStart).emit? .braceOpen (m.pos + 1)
  else (m.enter .text m.lineStart).emit? .error (m.pos + 1)

/-- The next token of the body of a reference. -/
def inBody? (m : CheckedLexer) (depth : Nat) : Option (Token × CheckedLexer) :=
  if m.is m.cursor .leftBrace then
    (m.enter (.body (depth + 1)) m.lineStart).emit? .braceOpen (m.pos + 1)
  else if m.is m.cursor .rightBrace then do
    let mode ← if depth ≤ 1 then some Mode.text else (sub? depth 1).map Mode.body
    (m.enter mode m.lineStart).emit? .braceClose (m.pos + 1)
  else do
    let rest ← m.from? m.cursor
    m.emit? .text (bodyEnd (byteLength m.source) rest)

/-- The next token and the lexer past it; nothing past the end of the script. -/
def next? (m : CheckedLexer) : Option (Option (Token × CheckedLexer)) :=
  match m.mode with
  | .done => some none
  | .afterAt =>
    if m.pos < m.nameEnd then
      ((m.enter .afterName m.lineStart).emit? .identifier m.nameEnd).map some
    else m.enter .afterName m.lineStart |>.next?
  | .afterName => do
    let target ← m.target?
    match target with
    | some result => some (some result)
    | none => m.enter .afterTarget m.lineStart |>.next?
  | .afterTarget =>
    if m.is (m.skipSpace m.cursor) .leftBrace then do
      let opening ← m.raw[m.skipSpace m.cursor]?
      let after ← (m.enter .text m.lineStart).advanceTo? opening.start
      after.openBody?.map some
    else m.enter .text m.lineStart |>.next?
  | .body depth => (m.inBody? depth).map some
  | .statement => do
    let rest ← m.restOfLine?
    match rest with
    | some result => some (some result)
    | none => m.enter .text true |>.next?
  | .text => m.inText?.map some
partial_fixpoint

/-- The tokens from here to the end of the script. -/
def tokens? (m : CheckedLexer) : Option (List Token) := do
  let result ← m.next?
  match result with
  | none => some []
  | some (token, after) => do
    let rest ← after |>.tokens?
    some (token :: rest)
partial_fixpoint

end CheckedLexer

end PromptScript
