import PromptScript.Text.Blank

/-!
# Positions and spans

Lines and columns count from one; columns count characters. A span runs from a position to the
position just past its last character.
-/

namespace PromptScript

/-- A place in a script. -/
structure Position where
  /-- The line, counted from one. -/
  line : Nat
  /-- The column, counted from one in characters. -/
  column : Nat
  deriving DecidableEq, Repr

namespace Position

/-- The place where a script begins. -/
def start : Position := ⟨1, 1⟩

/-- The place just past a character that stands at the given place. -/
def next (p : Position) (c : Char) : Position :=
  if c = '\n' then ⟨p.line + 1, 1⟩ else ⟨p.line, p.column + 1⟩

/-- The place just past a text that stands at the given place. -/
def advance (p : Position) (t : Text) : Position :=
  t.foldl next p

/-- Line by line, and within a line column by column. -/
def le (p q : Position) : Prop :=
  p.line < q.line ∨ p.line = q.line ∧ p.column ≤ q.column

instance : LE Position := ⟨le⟩

instance (p q : Position) : Decidable (p ≤ q) :=
  inferInstanceAs (Decidable (_ ∨ _))

/-- The earlier of two places. -/
def earlier (p q : Position) : Position :=
  if p ≤ q then p else q

/-- The later of two places. -/
def later (p q : Position) : Position :=
  if p ≤ q then q else p

/-- Two texts in a row advance a place as one text does. -/
theorem advance_append (p : Position) (s t : Text) :
    p.advance (s ++ t) = (p.advance s).advance t := by
  simp [advance]

end Position

/-- The part of a script between two places. -/
structure Span where
  /-- The place of the first character. -/
  start : Position
  /-- The place just past the last character. -/
  stop : Position
  deriving DecidableEq, Repr

/-- The span that covers two spans and what lies between them. -/
def Span.merge (a b : Span) : Span :=
  ⟨a.start.earlier b.start, a.stop.later b.stop⟩

end PromptScript
