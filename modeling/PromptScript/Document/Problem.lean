import PromptScript.ApiCall
import PromptScript.Diagnostic
import PromptScript.Token

/-!
# Problems of a script

What can be wrong with the form of a script. A problem never stops parsing; it is reported at its
place.
-/

namespace PromptScript.Document

/-- A flaw in the form of a script. -/
inductive Problem where
  /-- The body of a reference of a kind is never closed. -/
  | unterminatedBody (kind : Text)
  /-- The target of a reference of a kind is never closed. -/
  | unterminatedTarget (kind : Text)
  /-- The body of a reference of a kind nests braces too deeply. -/
  | deepBody (kind : Text)
  /-- A block is opened inside another. -/
  | nestedBlock
  /-- An alternative without an open condition. -/
  | strayElse
  /-- The end of a block that is not open. -/
  | strayEnd
  /-- A block without an end. -/
  | unclosedBlock
  /-- A condition that is not introduced as it should be. -/
  | malformedIf
  /-- A repetition that is not introduced as it should be. -/
  | malformedForEach
  /-- A call that is none. -/
  | malformedCall (problem : ApiCall.Problem)
  /-- A statement with an unknown keyword. -/
  | unknownStatement (keyword : Text)
  /-- A token that the grammar does not allow where it stands. -/
  | unexpectedToken (kind : Token.Kind) (text : Text)
  deriving DecidableEq, Repr

namespace Problem

/-- The code under which a problem is reported. -/
def code : Problem → Text
  | .unterminatedBody _ => "E_UNTERMINATED_REF".toList
  | .unterminatedTarget _ => "E_UNTERMINATED_TARGET".toList
  | .deepBody _ => "E_REF_DEPTH".toList
  | .unclosedBlock => "E_UNCLOSED_BLOCK".toList
  | .malformedIf | .malformedForEach | .malformedCall _ => "E_MALFORMED_STATEMENT".toList
  | .nestedBlock | .strayElse | .strayEnd | .unknownStatement _ | .unexpectedToken _ _ =>
    "E_UNEXPECTED_TOKEN".toList

/-- A problem in words. -/
def message : Problem → Text
  | .unterminatedBody kind => "Unterminated body for reference '@".toList ++ kind ++ ['\'']
  | .unterminatedTarget kind => "Unterminated target for reference '@".toList ++ kind ++ ['\'']
  | .deepBody kind =>
    "Reference '@".toList ++ kind ++ "' nests braces more than one level deep".toList
  | .nestedBlock => "Blocks cannot be nested; END the open block first".toList
  | .strayElse => "ELSE without an open IF".toList
  | .strayEnd => "END without an open block".toList
  | .unclosedBlock => "Block is missing its END".toList
  | .malformedIf => "Expected 'IF <condition> THEN'".toList
  | .malformedForEach => "Expected 'FOR EACH <item> IN <collection> DO'".toList
  | .malformedCall problem => problem.message
  | .unknownStatement keyword => "Unknown statement '".toList ++ keyword ++ ['\'']
  | .unexpectedToken kind text =>
    "Unexpected ".toList ++ kind.name ++ " '".toList ++ Text.trim text ++ ['\'']

/-- The report of a problem at the start of a span. -/
def diagnostic (problem : Problem) (span : Span) : Diagnostic :=
  (Diagnostic.error problem.code problem.message).located span

end Problem

end PromptScript.Document
