import PromptScript.Text.Alphabetic
import PromptScript.Text.Blank
import PromptScript.Text.Mark
import PromptScript.Text.Numeral
import PromptScript.Text.Recent

/-!
# Word characters

Two classes of word characters are in use. The scanner groups text by `isWord`: letters, marks,
decimal digits, connectors and joiners. The rules for reference kinds use `joinsWord`: letters,
all numerals and the underscore. ASCII characters are decided without the tables. The scanner's
class is that of Unicode 16.0; the tables are those of 17.0.
-/

namespace PromptScript.Text

/-- Membership in a table of ranges of code points. -/
def inRanges (ranges : List (Nat × Nat)) (n : Nat) : Bool :=
  ranges.any fun range => range.1 ≤ n && n ≤ range.2

/-- The scanner's class: Alphabetic, Mark, Decimal_Number, Connector_Punctuation, Join_Control. -/
def isWord (c : Char) : Bool :=
  let n := c.toNat
  if n < 0x80 then c.isAlphanum || c == '_'
  else if inRanges recentRanges n then false
  else
    inRanges alphabeticRanges n || inRanges markRanges n || inRanges decimalRanges n ||
      n == 0x200C || n == 0x200D || n == 0x203F || n == 0x2040 || n == 0x2054 ||
      n == 0xFE33 || n == 0xFE34 || (0xFE4D ≤ n && n ≤ 0xFE4F) || n == 0xFF3F

/-- Characters that may follow an at sign in a scanned piece. -/
def isName (c : Char) : Bool :=
  isWord c || c == ':' || c == '-'

/-- Alphabetic characters and all numerals. -/
def isAlphanumeric (c : Char) : Bool :=
  let n := c.toNat
  if n < 0x80 then c.isAlphanum else inRanges alphabeticRanges n || inRanges numeralRanges n

/-- Characters that glue a following at sign to the word before it. -/
def joinsWord (c : Char) : Bool :=
  isAlphanumeric c || c == '_'

/-- Characters allowed in a reference kind. -/
def isKindChar (c : Char) : Bool :=
  joinsWord c || c == ':' || c == '-'

/-- Characters that are printed as part of the character before them. -/
def isGraphemeExtend (c : Char) : Bool :=
  inRanges graphemeExtendRanges c.toNat

end PromptScript.Text
