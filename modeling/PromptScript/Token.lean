import PromptScript.Span

/-!
# Tokens

A token is a piece of a script with its meaning in context, its text and its place. Text comes in
fragments that never extend past a line break.
-/

namespace PromptScript

/-- What a token means. -/
inductive Token.Kind where
  /-- A section header, with its colon, at the start of a line. -/
  | sectionKeyword
  /-- The keyword of a statement at the start of a line. -/
  | statementKeyword
  /-- The kind of a reference, after its at sign. -/
  | identifier
  /-- The quoted target of a reference. -/
  | target
  /-- The at sign of a reference. -/
  | referenceStart
  /-- An opening brace of a reference body. -/
  | braceOpen
  /-- A closing brace of a reference body. -/
  | braceClose
  /-- A fragment of text. -/
  | text
  /-- An opening brace or quote that is never closed. -/
  | error
  /-- The end of the script. -/
  | eof
  deriving DecidableEq, Repr

/-- A token of a script. -/
structure Token where
  /-- What the token means. -/
  kind : Token.Kind
  /-- The characters of the token. -/
  text : Text
  /-- The place of its first character. -/
  place : Position
  deriving DecidableEq, Repr

namespace Token

/-- The names of the kinds of tokens: in reports, and in the written form of a token. -/
def kindNames : List (Kind × Text × Text) :=
  [(.sectionKeyword, "SectionKeyword".toList, "SECTION_KEYWORD".toList),
   (.statementKeyword, "StatementKeyword".toList, "STATEMENT_KEYWORD".toList),
   (.identifier, "Identifier".toList, "IDENTIFIER".toList),
   (.target, "Target".toList, "TARGET".toList),
   (.referenceStart, "ReferenceStart".toList, "REFERENCE_START".toList),
   (.braceOpen, "BraceOpen".toList, "BRACE_OPEN".toList),
   (.braceClose, "BraceClose".toList, "BRACE_CLOSE".toList),
   (.text, "Text".toList, "TEXT".toList),
   (.error, "Error".toList, "ERROR".toList),
   (.eof, "Eof".toList, "EOF".toList)]

/-- The name of a kind of token in reports. -/
def Kind.name (k : Kind) : Text :=
  ((kindNames.lookup k).map (·.1)).getD []

/-- The written form of a kind of token. -/
def Kind.tag (k : Kind) : Text :=
  ((kindNames.lookup k).map (·.2)).getD []

/-- The kind of token with a written form. -/
def Kind.ofTag? (tag : Text) : Option Kind :=
  (kindNames.find? fun row => row.2.2 == tag).map (·.1)

/-- The part of the script that a token takes up. -/
def span (t : Token) : Span :=
  ⟨t.place, t.place.advance t.text⟩

/-- Whether a token holds nothing but white space. -/
def isBlank (t : Token) : Bool :=
  Text.isBlank t.text

/-- Whether a token runs to the end of its line. -/
def endsLine (t : Token) : Bool :=
  Text.endsLine t.text

end Token

end PromptScript
