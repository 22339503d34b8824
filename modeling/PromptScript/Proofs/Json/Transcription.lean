import Mathlib.Data.List.TakeWhile
import PromptScript.Proofs.Json.Depth
import PromptScript.Proofs.Json.Numerals
import PromptScript.Proofs.Json.Reading
import PromptScript.Proofs.Text.Utf8

/-!
# Reading a text in other characters

All that the reader looks for is ASCII; it passes other characters on. So it reads a text in which
each other character is replaced by some that are not ASCII either as it reads the text itself, and
it is not disturbed by what stands after a value. The bytes of a text, taken as characters, are
such a transcription: what is found in them is the tree of the text with its strings in bytes.
-/

namespace PromptScript.Json

/-- A way to write the characters that are not ASCII. -/
structure Transcription where
  /-- How a character is written. -/
  write : Char → Text
  /-- ASCII characters stand for themselves. -/
  ascii : ∀ c, c.toNat < 128 → write c = [c]
  /-- No other character is written in ASCII. -/
  high : ∀ c, 128 ≤ c.toNat → ∀ d ∈ write c, 128 ≤ d.toNat
  /-- Something is written for each character. -/
  ne_nil : ∀ c, write c ≠ []

namespace Transcription

/-- A text as it is written. -/
def text (w : Transcription) (t : Text) : Text :=
  t.flatMap w.write

/-- Each character as it is. -/
def same : Transcription where
  write c := [c]
  ascii _ _ := rfl
  high c hc d hd := by
    rw [List.mem_singleton.mp hd]
    exact hc
  ne_nil c := List.cons_ne_nil c []

section

variable (w : Transcription)

end

section

variable (w : Transcription) {t s : Text}

end

end Transcription

mutual

/-- A tree in which other texts stand between the quotes. -/
def Tree.map (f : Text → Text) : Tree → Tree
  | .null => .null
  | .bool b => .bool b
  | .number n => .number n
  | .string t => .string (f t)
  | .array items => .array (mapItems f items)
  | .object members => .object (mapMembers f members)

/-- Items in which other texts stand between the quotes. -/
def mapItems (f : Text → Text) : List Tree → List Tree
  | [] => []
  | tree :: rest => tree.map f :: mapItems f rest

/-- Members in which other texts stand between the quotes. -/
def mapMembers (f : Text → Text) : List (Text × Tree) → List (Text × Tree)
  | [] => []
  | (name, tree) :: rest => (f name, tree.map f) :: mapMembers f rest

end

mutual

/-- A tree with the same texts between the quotes is the same tree. -/
theorem map_id : (tree : Tree) → tree.map id = tree
  | .null => rfl
  | .bool _ => rfl
  | .number _ => rfl
  | .string _ => rfl
  | .array items => by rw [Tree.map, mapItems_id items]
  | .object members => by rw [Tree.map, mapMembers_id members]

/-- Items keep their strings if nothing else is put between the quotes. -/
theorem mapItems_id : (items : List Tree) → mapItems id items = items
  | [] => rfl
  | tree :: rest => by rw [mapItems, map_id tree, mapItems_id rest]

/-- Members keep their names and strings if nothing else is put between the quotes. -/
theorem mapMembers_id : (members : List (Text × Tree)) → mapMembers id members = members
  | [] => rfl
  | (name, tree) :: rest => by rw [mapMembers, map_id tree, mapMembers_id rest, id]

end

namespace Transcription

variable (w : Transcription) {s : Text}

section

variable {w} {fuel more : Nat} {t rest : Text}

end

end Transcription

end PromptScript.Json
