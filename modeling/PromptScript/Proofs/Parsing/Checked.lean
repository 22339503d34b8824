import PromptScript.Document.Parser
import PromptScript.Proofs.Text.Offsets

/-!
# The parser in place

The parser as it walks over a list of tokens. It takes them one by one off the list, and what it
collects for a section or a branch of a block is one text with the byte offset at which the current
line of it begins: dropping the line cuts the text off at that offset. Every such cut and every
count of braces is checked: a step gives nothing if a check fails, and a run that does not end gives
nothing either.
-/

namespace PromptScript

/-- Text being collected, and where its current line begins. -/
structure CheckedBuffer where
  /-- The text so far. -/
  text : Text
  /-- The offset in bytes at which the current line begins. -/
  lineStart : Nat
  deriving DecidableEq, Repr

namespace CheckedBuffer

/-- The buffer without text. -/
def empty : CheckedBuffer := ⟨[], 0⟩

/-- The buffer with more text. A line begins behind it if it ends in a line break; breaks inside it
begin none. -/
def push (b : CheckedBuffer) (t : Text) : CheckedBuffer :=
  ⟨b.text ++ t, if Text.endsLine t then Text.byteLength (b.text ++ t) else b.lineStart⟩

/-- The buffer with a text that ends its line, or the same buffer if there is no text. -/
def pushLine (b : CheckedBuffer) (t : Text) : CheckedBuffer :=
  if t.isEmpty then b else (b.push t).push ['\n']

/-- The buffer cut off where its current line begins. -/
def dropLine? (b : CheckedBuffer) : Option CheckedBuffer :=
  (Text.truncate? b.text b.lineStart).map fun kept => { b with text := kept }

/-- The collected text, trimmed. -/
def finish (b : CheckedBuffer) : Text :=
  Text.trim b.text

end CheckedBuffer

/-- A section whose text is being collected in place. -/
structure CheckedSection where
  /-- The kind of the section. -/
  kind : SectionKind
  /-- The text so far. -/
  body : CheckedBuffer
  /-- The part of the script so far. -/
  span : Span
  deriving DecidableEq, Repr

/-- A block whose text is being collected in place. -/
structure CheckedBlock where
  /-- The statement that opened the block. -/
  opening : Opening
  /-- The text so far. -/
  body : CheckedBuffer
  /-- The text of the alternative so far, once there is one. -/
  otherwise : Option CheckedBuffer
  /-- The part of the script that the opening takes up. -/
  span : Span
  deriving DecidableEq, Repr

namespace CheckedBlock

/-- The texts of a block. -/
def buffers (b : CheckedBlock) : List CheckedBuffer :=
  b.body :: b.otherwise.toList

/-- The block with the text that is being collected changed. -/
def edit? (b : CheckedBlock) (change : CheckedBuffer → Option CheckedBuffer) :
    Option CheckedBlock :=
  match b.otherwise with
  | some buffer => (change buffer).map fun edited => { b with otherwise := some edited }
  | none => (change b.body).map fun edited => { b with body := edited }

/-- The finished block. -/
def block (b : CheckedBlock) : Block :=
  match b.opening with
  | .conditional condition =>
    .conditional condition b.body.finish ((b.otherwise.map CheckedBuffer.finish).getD [])
  | .forEach item collection => .forEach item collection b.body.finish
  | .onError => .onError b.body.finish

end CheckedBlock

/-- The parser on its way through a list of tokens. -/
structure CheckedParser where
  /-- The tokens that are left. -/
  tokens : List Token
  /-- What is finished. -/
  document : Document
  /-- The problems found so far. -/
  diagnostics : List Diagnostic
  /-- The open section, if any. -/
  openSection : Option CheckedSection
  /-- The open block, if any. -/
  openBlock : Option CheckedBlock
  /-- Whether the current line held nothing but white space and references so far. -/
  lineBlank : Bool
  /-- Whether a reference was spliced out of the current line. -/
  lineHasReference : Bool

namespace CheckedParser

/-- The parser before a list of tokens. -/
def ofTokens (tokens : List Token) : CheckedParser :=
  ⟨tokens, .empty, [], none, none, true, false⟩

/-- Every text that is being collected. -/
def buffers (m : CheckedParser) : List CheckedBuffer :=
  m.openSection.toList.map (·.body) ++ m.openBlock.toList.flatMap (·.buffers)

/-- Reports a problem at the start of a span. -/
def report (m : CheckedParser) (problem : Document.Problem) (span : Span) : CheckedParser :=
  { m with diagnostics := m.diagnostics ++ [problem.diagnostic span] }

/-- Sets what is known of the current line. -/
def setLine (m : CheckedParser) (blank hasReference : Bool) : CheckedParser :=
  { m with lineBlank := blank, lineHasReference := hasReference }

/-- Changes the text being collected: that of the open block, or else of the open section. -/
def edit? (m : CheckedParser) (change : CheckedBuffer → Option CheckedBuffer) :
    Option CheckedParser :=
  match m.openBlock, m.openSection with
  | some block, _ => (block.edit? change).map fun edited => { m with openBlock := some edited }
  | none, some s =>
    (change s.body).map fun edited => { m with openSection := some { s with body := edited } }
  | none, none => some m

/-- Finishes the open section, if any. -/
def finishSection (m : CheckedParser) : CheckedParser :=
  match m.openSection with
  | some s =>
    { m with
      document :=
        { m.document with sections := m.document.sections ++ [⟨s.kind, s.body.finish, s.span⟩] }
      openSection := none }
  | none => m

/-- Adds a finished block to the document; no block is open afterwards. -/
def addBlock (m : CheckedParser) (block : Block) (span : Span) : CheckedParser :=
  { m with
    document := { m.document with blocks := m.document.blocks ++ [⟨block, span⟩] }
    openBlock := none }

/-- Reports and finishes a block that is still open. -/
def closeUnfinished (m : CheckedParser) : CheckedParser :=
  match m.openBlock with
  | some b => (m.report .unclosedBlock b.span).addBlock b.block b.span
  | none => m

/-- Extends the open section to a span, if there is one. -/
def extendSection (m : CheckedParser) (span : Span) : CheckedParser :=
  { m with openSection := m.openSection.map fun s => { s with span := s.span.merge span } }

/-- The parser with other tokens left. -/
def past (m : CheckedParser) (rest : List Token) : CheckedParser :=
  { m with tokens := rest }

/-- The next token if it is of a kind, and the parser past it. -/
def nextIf (m : CheckedParser) (kind : Token.Kind) : Option Token × CheckedParser :=
  match m.tokens with
  | [] => (none, m)
  | t :: rest => if t.kind = kind then (some t, m.past rest) else (none, m)

/-- Passes the given tokens, those that are left, through the end of the line or up to one where
parsing can resume. -/
def skip (m : CheckedParser) : List Token → CheckedParser
  | [] => m.past []
  | t :: rest =>
    if Item.resumes t then m.past (t :: rest)
    else if t.endsLine then (m.past rest).setLine true false
    else m.skip rest

/-- A token that the grammar does not allow here, and the rest of its line. -/
def unexpected (m : CheckedParser) (t : Token) : CheckedParser :=
  let m := m.report (.unexpectedToken t.kind t.text) t.span
  if t.endsLine then m.setLine true false else m.skip m.tokens

/-- A section header. All that is open ends. -/
def header (m : CheckedParser) (t : Token) : CheckedParser :=
  let m := m.finishSection.closeUnfinished.setLine false false
  match SectionKind.ofHeader? t.text with
  | some kind => { m with openSection := some ⟨kind, .empty, t.span⟩ }
  | none => m.unexpected t

/-- A fragment of text. A blank line ends a section; a line of references alone leaves no trace. -/
def text? (m : CheckedParser) (t : Token) : Option CheckedParser :=
  if m.lineBlank ∧ t.isBlank ∧ t.endsLine then
    if m.lineHasReference then { m with lineHasReference := false }.edit? CheckedBuffer.dropLine?
    else
      match m.openBlock with
      | some _ => m.edit? fun buffer => some (buffer.push t.text)
      | none => some m.finishSection
  else do
    let extended := if t.isBlank then m else m.extendSection t.span
    let pushed ← extended.edit? fun buffer => some (buffer.push t.text)
    some (pushed.setLine (t.endsLine || (m.lineBlank && t.isBlank))
      (m.lineHasReference && !t.endsLine))

/-- Opens a block, unless one is open. -/
def openNew (m : CheckedParser) (opening : Opening) (span : Span) (rest : Text) : CheckedParser :=
  match m.openBlock with
  | some _ => m.report .nestedBlock span
  | none =>
    { m with openBlock := some ⟨opening, CheckedBuffer.empty.pushLine rest, none, span⟩ }

/-- A conditional statement with its arguments. -/
def conditional (m : CheckedParser) (span : Span) (arguments : Text) : CheckedParser :=
  match Text.splitWord? "THEN".toList arguments with
  | some (c :: condition, rest) =>
    m.openNew (.conditional (.ofText (c :: condition))) span rest
  | _ => (m.report .malformedIf span).openNew (.conditional (.ofText arguments)) span []

/-- A repetition statement with its arguments. -/
def forEach (m : CheckedParser) (span : Span) (arguments : Text) : CheckedParser :=
  match Draft.repetition? arguments with
  | some (item, collection, body) => m.openNew (.forEach item collection) span body
  | none =>
    let (item, collection) := (Text.splitWord? "IN".toList arguments).getD (arguments, [])
    (m.report .malformedForEach span).openNew (.forEach item collection) span []

/-- The alternative of a condition. -/
def otherwise (m : CheckedParser) (span : Span) (arguments : Text) : CheckedParser :=
  match m.openBlock with
  | some ⟨.conditional condition, body, none, opened⟩ =>
    let other := CheckedBuffer.empty.pushLine arguments
    { m with openBlock := some ⟨.conditional condition, body, some other, opened⟩ }
  | _ => m.report .strayElse span

/-- The end of a block, whose keyword takes up a span. -/
def finish (m : CheckedParser) (keyword span : Span) : CheckedParser :=
  match m.openBlock with
  | some b => m.addBlock b.block (b.span.merge keyword)
  | none => m.report .strayEnd span

/-- A call with its arguments. -/
def callApi (m : CheckedParser) (span : Span) (arguments : Text) : CheckedParser :=
  match ApiCall.ofText arguments with
  | .ok call =>
    { m with
      document := { m.document with apiCalls := m.document.apiCalls ++ [⟨call, span⟩] } }
  | .error problem => m.report (.malformedCall problem) span

/-- A statement, which takes the rest of its line. It ends the open section. -/
def statement (m : CheckedParser) (keyword : Token) : CheckedParser :=
  let (rest, m) := m.nextIf .text
  let span := match rest with
    | some line => if line.isBlank then keyword.span else keyword.span.merge line.span
    | none => keyword.span
  let arguments := (rest.map fun line => Text.trim line.text).getD []
  let m := m.finishSection.setLine true false
  let words := Text.words keyword.text
  match Draft.statementWords.lookup words with
  | some .conditional => m.conditional span arguments
  | some .forEach => m.forEach span arguments
  | some .onError => m.openNew .onError span arguments
  | some .otherwise => m.otherwise span arguments
  | some .finish => m.finish keyword.span span
  | some .callApi => m.callApi span arguments
  | none => m.report (.unknownStatement (Text.join [' '] words)) span

/-- The rest of a body that goes on with the given tokens, inside so many braces: the parser past
it, all of the body and the part of the script with it. Braces that lie too deep are reported
once. -/
def body? (kind : Text) (m : CheckedParser) (depth : Nat) (reported : Bool) (body : Text)
    (span : Span) : List Token → Option (CheckedParser × Text × Span)
  | [] => some (m.past [], body, span)
  | t :: rest =>
    let covered := span.merge t.span
    if t.kind = .braceOpen then
      let deep := 2 < depth + 1 && !reported
      let m := if deep then m.report (.deepBody kind) t.span else m
      m.body? kind (depth + 1) (reported || deep) (body ++ t.text) covered rest
    else if t.kind = .braceClose then do
      let inside ← sub? depth 1
      if inside = 0 then some (m.past rest, body, covered)
      else m.body? kind inside reported (body ++ t.text) covered rest
    else if t.kind = .eof then some (m.past rest, body, covered)
    else m.body? kind depth reported (body ++ t.text) covered rest

/-- The body of a reference that is never closed, which goes on with the text at the front of the
given tokens: the body, the part of the script with it, whether its last fragment ends a line, and
the tokens after it. -/
def recover (body : Text) (span : Span) (endsLine : Bool) :
    List Token → Text × Span × Bool × List Token
  | [] => (body, span, endsLine, [])
  | t :: rest =>
    if t.kind = .text then recover (body ++ t.text) (span.merge t.span) t.endsLine rest
    else (body, span, endsLine, t :: rest)

/-- The parser past a body that is never closed. If the body ran to the end of its line, a new line
begins, and a line that held nothing else leaves no trace. -/
def settle? (m : CheckedParser) (endsLine : Bool) : Option CheckedParser :=
  if endsLine then
    if m.lineBlank then (m.edit? CheckedBuffer.dropLine?).map (·.setLine true false)
    else some (m.setLine true false)
  else some m

/-- What follows a name and a target: the parser past it, the body it gives and the part of the
script with it. -/
def tail? (m : CheckedParser) (kind : Text) (span : Span) :
    Option (CheckedParser × Text × Span) :=
  match m.tokens with
  | [] => some (m, [], span)
  | t :: rest =>
    if t.kind = .braceOpen then m.body? kind 1 false [] span rest
    else if t.kind = .error then do
      let problem : Document.Problem :=
        if t.text = ['"'] then .unterminatedTarget kind else .unterminatedBody kind
      let (body, span, endsLine, rest) := recover [] (span.merge t.span) false rest
      let m ← ((m.report problem t.span).past rest).settle? endsLine
      some (m, body, span)
    else some (m, [], span)

/-- A reference, which takes its name, its target and what follows them. -/
def reference? (m : CheckedParser) (start : Token) : Option CheckedParser := do
  let (name, m) := m.nextIf .identifier
  let (target, m) := m.nextIf .target
  let named := (name.map (·.text)).getD []
  let kind := if target.isSome then Text.trimEndChar ':' named else named
  let span := Draft.coverTokens start.span (name.toList ++ target.toList)
  let (m, body, span) ← { m with lineHasReference := true }.tail? kind span
  let body := Text.trim body
  let found : Reference :=
    ⟨kind, target.map fun t => Text.trimChar '"' t.text, body, Params.ofBody body, span⟩
  some { m with document := { m.document with references := m.document.references ++ [found] } }

/-- The parser past the next token and what that token takes with it; nothing past the end of the
script. -/
def next? (m : CheckedParser) : Option (Option CheckedParser) :=
  match m.tokens with
  | [] => some none
  | t :: rest =>
    let m := m.past rest
    match t.kind with
    | .sectionKeyword => some (some (m.header t))
    | .statementKeyword => some (some (m.statement t))
    | .text => (m.text? t).map some
    | .referenceStart => (m.reference? t).map some
    | .eof => some none
    | _ => some (some (m.unexpected t))

/-- The document of the tokens that are left, after what is known. -/
def run? (m : CheckedParser) : Option Parsed := do
  let result ← m.next?
  match result with
  | some after => after |>.run?
  | none =>
    let closed := m.finishSection.closeUnfinished
    some ⟨closed.document, closed.diagnostics⟩
partial_fixpoint

/-- A state of the parser on a list of tokens, after any number of steps. -/
inductive Reaches (tokens : List Token) : CheckedParser → Prop
  | start : Reaches tokens (ofTokens tokens)
  | next {m after : CheckedParser} (h : Reaches tokens m) (hnext : m.next? = some (some after)) :
    Reaches tokens after

end CheckedParser

end PromptScript
