import PromptScript.Text.Split

/-!
# Conditions

The condition of a conditional block is a comparison, if its text holds an operator, and otherwise
plain text. Nothing evaluates it.
-/

namespace PromptScript

/-- A comparison operator. -/
inductive Operator where
  /-- Equal. -/
  | eq
  /-- Not equal. -/
  | ne
  /-- Less. -/
  | lt
  /-- Greater. -/
  | gt
  /-- Less or equal. -/
  | le
  /-- Greater or equal. -/
  | ge
  deriving DecidableEq, Repr

namespace Operator

/-- The written form of an operator. -/
def text : Operator → Text
  | .eq => ['=']
  | .ne => ['!', '=']
  | .lt => ['<']
  | .gt => ['>']
  | .le => ['<', '=']
  | .ge => ['>', '=']

/-- The operators in the order in which a text is searched for them: those of two characters come
first. -/
def searchOrder : List Operator :=
  [.ne, .le, .ge, .eq, .lt, .gt]

end Operator

/-- The condition of a conditional block. -/
inductive Condition where
  /-- Two sides and the operator between them. -/
  | comparison (left : Text) (operator : Operator) (right : Text)
  /-- Text without an operator. -/
  | raw (text : Text)
  deriving DecidableEq, Repr

namespace Condition

/-- The comparison that a text makes with an operator, if it holds the operator. -/
def compare? (text : Text) (operator : Operator) : Option Condition :=
  (Text.splitOnce? operator.text text).map fun sides =>
    .comparison (Text.trim sides.1) operator (Text.trim sides.2)

/-- The condition that a text states. -/
def ofText (text : Text) : Condition :=
  let text := Text.trim text
  (Operator.searchOrder.findSome? (compare? text)).getD (.raw text)

/-- The written form of a condition. -/
def render : Condition → Text
  | .comparison left operator right => left ++ ' ' :: operator.text ++ ' ' :: right
  | .raw text => text

end Condition

end PromptScript
