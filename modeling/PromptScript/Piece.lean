import PromptScript.Text.WordClass
import PromptScript.Text.Split

/-!
# Pieces

Scanning cuts a script into pieces without regard to context: line breaks, runs of horizontal
white space, words and keywords, at signs with the name glued to them, and single marks. Every
character belongs to exactly one piece, and each piece is as long as it can be.
-/

namespace PromptScript

/-- What a piece is. -/
inductive Piece.Kind where
  /-- A line break. -/
  | newline
  /-- A run of horizontal white space. -/
  | space
  /-- The word TASK, ACTION or GOAL in any case. -/
  | sectionWord
  /-- The word IF. -/
  | ifWord
  /-- The word ELSE. -/
  | elseWord
  /-- The word END. -/
  | endWord
  /-- The word FOR. -/
  | forWord
  /-- The word EACH. -/
  | eachWord
  /-- The word CALL. -/
  | callWord
  /-- The word API. -/
  | apiWord
  /-- The word ON. -/
  | onWord
  /-- The word ERROR. -/
  | errorWord
  /-- A number sign. -/
  | hash
  /-- An at sign and the name glued to it. -/
  | at
  /-- An opening brace. -/
  | leftBrace
  /-- A closing brace. -/
  | rightBrace
  /-- A double quote. -/
  | quote
  /-- Any other word. -/
  | word
  /-- Any other single character. -/
  | punct
  deriving DecidableEq, Repr

/-- A piece of a script. -/
structure Piece where
  /-- What the piece is. -/
  kind : Piece.Kind
  /-- The characters of the piece. -/
  text : Text
  deriving DecidableEq, Repr

namespace Piece

/-- The written name of a kind of piece. -/
def Kind.name : Kind → Text
  | .newline => "Newline".toList
  | .space => "Space".toList
  | .sectionWord => "Section".toList
  | .ifWord => "If".toList
  | .elseWord => "Else".toList
  | .endWord => "End".toList
  | .forWord => "For".toList
  | .eachWord => "Each".toList
  | .callWord => "Call".toList
  | .apiWord => "Api".toList
  | .onWord => "On".toList
  | .errorWord => "ErrorKw".toList
  | .hash => "Hash".toList
  | .at => "At".toList
  | .leftBrace => "LBrace".toList
  | .rightBrace => "RBrace".toList
  | .quote => "Quote".toList
  | .word => "Word".toList
  | .punct => "Punct".toList

/-- The words of statements, in upper case only. -/
def statementWords : List (Text × Kind) :=
  [("IF".toList, .ifWord), ("ELSE".toList, .elseWord), ("END".toList, .endWord),
   ("FOR".toList, .forWord), ("EACH".toList, .eachWord), ("CALL".toList, .callWord),
   ("API".toList, .apiWord), ("ON".toList, .onWord), ("ERROR".toList, .errorWord)]

/-- The words that head sections, in lower case. -/
def sectionWords : List Text :=
  ["task".toList, "action".toList, "goal".toList]

/-- The kind of a whole word that is a keyword. -/
def keyword? (run : Text) : Option Kind :=
  if sectionWords.contains (Text.lower run) then some .sectionWord
  else statementWords.lookup run

/-- Characters that make a plain word of a keyword they directly follow: all beyond ASCII but
those of three blocks of the code space. -/
def masksKeyword (c : Char) : Bool :=
  let n := c.toNat
  0x80 ≤ n && !((0xE000 ≤ n && n ≤ 0xEFFF) || (0x40000 ≤ n && n ≤ 0xBFFFF) || 0x100000 ≤ n)

/-- The kind of a run of word characters, given the text after it. -/
def wordKind (run after : Text) : Kind :=
  if after.head?.any masksKeyword then .word else (keyword? run).getD .word

/-- Horizontal white space. -/
def isHorizontal (c : Char) : Bool :=
  Text.isSpace c && c != '\n'

/-- The first piece of a text, and the text after it. -/
def first (c : Char) (rest : Text) : Piece × Text :=
  if c = '\n' then (⟨.newline, [c]⟩, rest)
  else if Text.isSpace c then
    (⟨.space, c :: rest.takeWhile isHorizontal⟩, rest.dropWhile isHorizontal)
  else if c = '@' then
    (⟨.at, c :: rest.takeWhile Text.isName⟩, rest.dropWhile Text.isName)
  else if Text.isWord c then
    let run := c :: rest.takeWhile Text.isWord
    let after := rest.dropWhile Text.isWord
    (⟨wordKind run after, run⟩, after)
  else if c = '#' then (⟨.hash, [c]⟩, rest)
  else if c = '{' then (⟨.leftBrace, [c]⟩, rest)
  else if c = '}' then (⟨.rightBrace, [c]⟩, rest)
  else if c = '"' then (⟨.quote, [c]⟩, rest)
  else (⟨.punct, [c]⟩, rest)

/-- The first piece and the text after it are the text. -/
theorem first_append (c : Char) (rest : Text) :
    (first c rest).1.text ++ (first c rest).2 = c :: rest := by
  unfold first
  repeat' split
  all_goals simp [List.takeWhile_append_dropWhile]

/-- The first piece takes at least one character. -/
theorem length_first_lt (c : Char) (rest : Text) :
    (first c rest).2.length < (c :: rest).length := by
  have hdrop (p : Char → Bool) : (rest.dropWhile p).length ≤ rest.length :=
    (List.dropWhile_suffix p).length_le
  unfold first
  repeat' split
  all_goals simp only [List.length_cons]
  all_goals first | omega | exact Nat.lt_succ_of_le (hdrop _)

/-- The pieces of a text. -/
def scan : Text → List Piece
  | [] => []
  | c :: rest => (first c rest).1 :: scan (first c rest).2
termination_by t => t.length
decreasing_by exact length_first_lt c rest

/-- The pieces of a text make up the text. -/
theorem flatMap_text_scan (t : Text) : (scan t).flatMap (·.text) = t := by
  fun_induction scan t with
  | case1 => rfl
  | case2 c rest ih => rw [List.flatMap_cons, ih, first_append]

end Piece

end PromptScript
