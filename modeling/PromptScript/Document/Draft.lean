import PromptScript.Document.Item
import PromptScript.Document.Problem

/-!
# Drafts

A draft is a document in the making, with the section or the block that is open and what is known
of the current line. Each item of a script changes the draft in one step. References splice out of
the text around them; a line that held nothing but references is dropped from the text.
-/

namespace PromptScript

/-- Text being collected, its current line apart. -/
structure TextBuffer where
  /-- The text before the current line. -/
  settled : Text
  /-- The text of the current line. -/
  pending : Text
  deriving DecidableEq, Repr

namespace TextBuffer

/-- The buffer without text. -/
def empty : TextBuffer := ⟨[], []⟩

/-- The collected text. -/
def text (b : TextBuffer) : Text :=
  b.settled ++ b.pending

/-- The buffer with more text; a line break at its end settles the line. -/
def push (b : TextBuffer) (t : Text) : TextBuffer :=
  if Text.endsLine t then ⟨b.text ++ t, []⟩ else ⟨b.settled, b.pending ++ t⟩

/-- The buffer that holds a text as a line of its own, or nothing if the text is empty. -/
def ofLine (t : Text) : TextBuffer :=
  if t.isEmpty then empty else (empty.push t).push ['\n']

/-- The buffer without its current line. -/
def dropLine (b : TextBuffer) : TextBuffer :=
  ⟨b.settled, []⟩

/-- The collected text, trimmed. -/
def finish (b : TextBuffer) : Text :=
  Text.trim b.text

end TextBuffer

/-- A section whose text is being collected. -/
structure OpenSection where
  /-- The kind of the section. -/
  kind : SectionKind
  /-- The text so far. -/
  body : TextBuffer
  /-- The part of the script so far. -/
  span : Span
  deriving DecidableEq, Repr

/-- The statement that opens a block. -/
inductive Opening where
  /-- A condition. -/
  | conditional (condition : Condition)
  /-- A repetition for each item of a collection. -/
  | forEach (item collection : Text)
  /-- What to do when something fails. -/
  | onError
  deriving DecidableEq, Repr

/-- A block whose text is being collected. -/
structure OpenBlock where
  /-- The statement that opened the block. -/
  opening : Opening
  /-- The text so far. -/
  body : TextBuffer
  /-- The text of the alternative so far, once there is one. -/
  otherwise : Option TextBuffer
  /-- The part of the script that the opening takes up. -/
  span : Span
  deriving DecidableEq, Repr

namespace OpenBlock

/-- The block with the text that is being collected changed. -/
def edit (b : OpenBlock) (change : TextBuffer → TextBuffer) : OpenBlock :=
  match b.otherwise with
  | some buffer => { b with otherwise := some (change buffer) }
  | none => { b with body := change b.body }

/-- The finished block. -/
def block (b : OpenBlock) : Block :=
  match b.opening with
  | .conditional condition =>
    .conditional condition b.body.finish ((b.otherwise.map TextBuffer.finish).getD [])
  | .forEach item collection => .forEach item collection b.body.finish
  | .onError => .onError b.body.finish

end OpenBlock

/-- A document in the making. -/
structure Draft where
  /-- What is finished. -/
  document : Document
  /-- The problems found so far. -/
  diagnostics : List Diagnostic
  /-- The open section, if any. -/
  openSection : Option OpenSection
  /-- The open block, if any. -/
  openBlock : Option OpenBlock
  /-- Whether the current line held nothing but white space and references so far. -/
  lineBlank : Bool
  /-- Whether a reference was spliced out of the current line. -/
  lineHasReference : Bool
  deriving DecidableEq

namespace Draft

/-- The draft at the start of a script. -/
def empty : Draft :=
  ⟨.empty, [], none, none, true, false⟩

/-- Reports a problem at the start of a span. -/
def report (d : Draft) (problem : Document.Problem) (span : Span) : Draft :=
  { d with diagnostics := d.diagnostics ++ [problem.diagnostic span] }

/-- Changes the text being collected: that of the open block, or else of the open section. -/
def edit (d : Draft) (change : TextBuffer → TextBuffer) : Draft :=
  match d.openBlock, d.openSection with
  | some block, _ => { d with openBlock := some (block.edit change) }
  | none, some s => { d with openSection := some { s with body := change s.body } }
  | none, none => d

/-- Finishes the open section, if any. -/
def finishSection (d : Draft) : Draft :=
  match d.openSection with
  | some s =>
    { d with
      document :=
        { d.document with sections := d.document.sections ++ [⟨s.kind, s.body.finish, s.span⟩] }
      openSection := none }
  | none => d

/-- Adds a finished block to the document; no block is open afterwards. -/
def addBlock (d : Draft) (block : Block) (span : Span) : Draft :=
  { d with
    document := { d.document with blocks := d.document.blocks ++ [⟨block, span⟩] }
    openBlock := none }

/-- Reports and finishes a block that is still open. -/
def closeUnfinished (d : Draft) : Draft :=
  match d.openBlock with
  | some b => (d.report .unclosedBlock b.span).addBlock b.block b.span
  | none => d

/-- Sets what is known of the current line. -/
def setLine (d : Draft) (blank hasReference : Bool) : Draft :=
  { d with lineBlank := blank, lineHasReference := hasReference }

/-- What comes before a header: all that is open ends. -/
def closeAll (d : Draft) : Draft :=
  (d.finishSection.closeUnfinished).setLine false false

/-- Extends the open section to a span, if there is one. -/
def extendSection (d : Draft) (span : Span) : Draft :=
  { d with openSection := d.openSection.map fun s => { s with span := s.span.merge span } }

/-- A fragment of text. A blank line ends a section; a line of references alone leaves no trace. -/
def text (d : Draft) (t : Token) : Draft :=
  if d.lineBlank ∧ t.isBlank ∧ t.endsLine then
    if d.lineHasReference then { d.edit .dropLine with lineHasReference := false }
    else
      match d.openBlock with
      | some block => { d with openBlock := some (block.edit (·.push t.text)) }
      | none => d.finishSection
  else
    let d := if t.isBlank then d else d.extendSection t.span
    (d.edit (·.push t.text)).setLine (t.endsLine || (d.lineBlank && t.isBlank))
      (d.lineHasReference && !t.endsLine)

/-- Opens a block, unless one is open. -/
def openNew (d : Draft) (opening : Opening) (span : Span) (rest : Text) : Draft :=
  match d.openBlock with
  | some _ => d.report .nestedBlock span
  | none => { d with openBlock := some ⟨opening, .ofLine rest, none, span⟩ }

/-- The keyword of a statement. -/
inductive StatementWord where
  /-- Opens a condition. -/
  | conditional
  /-- Opens a repetition. -/
  | forEach
  /-- Opens what to do on failure. -/
  | onError
  /-- Begins the alternative of a condition. -/
  | otherwise
  /-- Ends a block. -/
  | finish
  /-- Makes a call. -/
  | callApi
  deriving DecidableEq, Repr

/-- The words of each keyword. -/
def statementWords : List (List Text × StatementWord) :=
  [(["IF".toList], .conditional), (["FOR".toList, "EACH".toList], .forEach),
   (["ON".toList, "ERROR".toList], .onError), (["ELSE".toList], .otherwise),
   (["END".toList], .finish), (["CALL".toList, "API".toList], .callApi)]

/-- A conditional statement with its arguments. -/
def conditional (d : Draft) (span : Span) (arguments : Text) : Draft :=
  match Text.splitWord? "THEN".toList arguments with
  | some (c :: condition, rest) =>
    d.openNew (.conditional (.ofText (c :: condition))) span rest
  | _ => (d.report .malformedIf span).openNew (.conditional (.ofText arguments)) span []

/-- The item, the collection and the first text of a repetition. -/
def repetition? (arguments : Text) : Option (Text × Text × Text) := do
  let (item, rest) ← Text.splitWord? "IN".toList arguments
  let (collection, body) ← Text.splitWord? "DO".toList rest
  if item.isEmpty ∨ collection.isEmpty then none else some (item, collection, body)

/-- A repetition statement with its arguments. -/
def forEach (d : Draft) (span : Span) (arguments : Text) : Draft :=
  match repetition? arguments with
  | some (item, collection, body) => d.openNew (.forEach item collection) span body
  | none =>
    let (item, collection) := (Text.splitWord? "IN".toList arguments).getD (arguments, [])
    (d.report .malformedForEach span).openNew (.forEach item collection) span []

/-- The alternative of a condition. -/
def otherwise (d : Draft) (span : Span) (arguments : Text) : Draft :=
  match d.openBlock with
  | some ⟨.conditional condition, body, none, opened⟩ =>
    { d with
      openBlock := some ⟨.conditional condition, body, some (.ofLine arguments), opened⟩ }
  | _ => d.report .strayElse span

/-- The end of a block, whose keyword takes up a span. -/
def finish (d : Draft) (keyword span : Span) : Draft :=
  match d.openBlock with
  | some b => d.addBlock b.block (b.span.merge keyword)
  | none => d.report .strayEnd span

/-- A call with its arguments. -/
def callApi (d : Draft) (span : Span) (arguments : Text) : Draft :=
  match ApiCall.ofText arguments with
  | .ok call =>
    { d with
      document := { d.document with apiCalls := d.document.apiCalls ++ [⟨call, span⟩] } }
  | .error problem => d.report (.malformedCall problem) span

/-- A statement and the rest of its line. It ends the open section. -/
def statement (d : Draft) (keyword : Token) (rest : Option Token) : Draft :=
  let span := match rest with
    | some line => if line.isBlank then keyword.span else keyword.span.merge line.span
    | none => keyword.span
  let arguments := (rest.map fun line => Text.trim line.text).getD []
  let d := d.finishSection.setLine true false
  let words := Text.words keyword.text
  match statementWords.lookup words with
  | some .conditional => d.conditional span arguments
  | some .forEach => d.forEach span arguments
  | some .onError => d.openNew .onError span arguments
  | some .otherwise => d.otherwise span arguments
  | some .finish => d.finish keyword.span span
  | some .callApi => d.callApi span arguments
  | none => d.report (.unknownStatement (Text.join [' '] words)) span

/-- The characters of tokens in a row. -/
def textOf (tokens : List Token) : Text :=
  tokens.flatMap (·.text)

/-- A span extended to tokens. -/
def coverTokens (span : Span) (tokens : List Token) : Span :=
  tokens.foldl (fun s t => s.merge t.span) span

/-- The first opening brace that lies inside a brace of a body. -/
def deepBrace? (depth : Nat) : List Token → Option Token
  | [] => none
  | t :: rest =>
    if t.kind = .braceOpen then
      if 2 ≤ depth then some t else deepBrace? (depth + 1) rest
    else if t.kind = .braceClose then deepBrace? (depth - 1) rest
    else deepBrace? depth rest

/-- What follows a name and a target: the body it gives, the part of the script with it, and the
draft after it. -/
def tail (d : Draft) (kind : Text) (span : Span) : Item.Tail → Draft × Text × Span
  | .none => (d, [], span)
  | .braced _ inner closing =>
    let reported := match deepBrace? 1 inner with
      | some brace => d.report (.deepBody kind) brace.span
      | none => d
    (reported, textOf inner, coverTokens span (inner ++ closing.toList))
  | .unterminated mark recovered =>
    let problem : Document.Problem :=
      if mark.text = ['"'] then .unterminatedTarget kind else .unterminatedBody kind
    let reported := d.report problem mark.span
    let settled :=
      if recovered.getLast?.any Token.endsLine then
        (if d.lineBlank then reported.edit .dropLine else reported).setLine true false
      else reported
    (settled, textOf recovered, coverTokens span (mark :: recovered))

/-- A reference. -/
def reference (d : Draft) (start : Token) (name target : Option Token) (tail : Item.Tail) :
    Draft :=
  let named := (name.map (·.text)).getD []
  let kind := if target.isSome then Text.trimEndChar ':' named else named
  let span := coverTokens start.span (name.toList ++ target.toList)
  let (d, body, span) := { d with lineHasReference := true }.tail kind span tail
  let body := Text.trim body
  let found : Reference :=
    ⟨kind, target.map fun t => Text.trimChar '"' t.text, body, Params.ofBody body, span⟩
  { d with document := { d.document with references := d.document.references ++ [found] } }

/-- A token that has no place in the grammar. One that looks like a header ends what is open. -/
def stray (d : Draft) (t : Token) (skipped : List Token) : Draft :=
  let d := if t.kind = .sectionKeyword then d.closeAll else d
  let d := d.report (.unexpectedToken t.kind t.text) t.span
  if t.endsLine ∨ skipped.getLast?.any Token.endsLine then d.setLine true false else d

/-- The draft after an item. -/
def apply (d : Draft) : Item → Draft
  | .header t kind => { d.closeAll with openSection := some ⟨kind, .empty, t.span⟩ }
  | .statement keyword rest => d.statement keyword rest
  | .text t => d.text t
  | .reference start name target rest => d.reference start name target rest
  | .stray t skipped => d.stray t skipped

/-- The draft after items in a row. -/
def applyAll (d : Draft) (items : List Item) : Draft :=
  items.foldl apply d

/-- The draft at the end of a script: all that is open ends. -/
def close (d : Draft) : Draft :=
  d.finishSection.closeUnfinished

end Draft

end PromptScript
