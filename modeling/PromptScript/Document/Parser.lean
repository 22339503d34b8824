import PromptScript.Document.Draft
import PromptScript.Token.Lexer

/-!
# Parsing

A script is read as tokens, the tokens as items, and the items as steps of a draft. Parsing never
fails: problems are reported beside the document.
-/

namespace PromptScript

/-- A document and the problems found in the form of its script. -/
structure Parsed where
  /-- What the script says. -/
  document : Document
  /-- The problems in its form. -/
  diagnostics : List Diagnostic
  deriving DecidableEq

namespace Parsed

/-- The document of a list of tokens. -/
def ofTokens (tokens : List Token) : Parsed :=
  let draft := (Draft.empty.applyAll (Item.ofTokens tokens)).close
  ⟨draft.document, draft.diagnostics⟩

/-- The document of a script. -/
def ofText (source : Text) : Parsed :=
  ofTokens (Token.ofText source)

end Parsed

end PromptScript
