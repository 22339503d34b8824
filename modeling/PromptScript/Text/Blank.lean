/-!
# White space

The Unicode property White_Space, and the operations on text that look only at it: trimming,
blankness and splitting into words.
-/

namespace PromptScript

/-- Text is a sequence of Unicode scalar values. -/
abbrev Text := List Char

namespace Text

/-- The 25 characters with the property White_Space. -/
def isSpace (c : Char) : Bool :=
  let n := c.toNat
  (9 ≤ n && n ≤ 13) || n == 0x20 || n == 0x85 || n == 0xA0 || n == 0x1680 ||
    (0x2000 ≤ n && n ≤ 0x200A) || n == 0x2028 || n == 0x2029 || n == 0x202F || n == 0x205F ||
    n == 0x3000

/-- Text without its leading white space. -/
def trimStart (t : Text) : Text :=
  t.dropWhile isSpace

/-- Text without its trailing white space. -/
def trimEnd (t : Text) : Text :=
  (t.reverse.dropWhile isSpace).reverse

/-- Text without the white space around it. -/
def trim (t : Text) : Text :=
  trimEnd (trimStart t)

/-- Text that holds nothing but white space. -/
def isBlank (t : Text) : Bool :=
  t.all isSpace

/-- Text whose last character is a line break. -/
def endsLine (t : Text) : Bool :=
  t.getLast? == some '\n'

/-- The words of a text, the last of them still growing from `word`. -/
def wordsFrom (word : Text) : Text → List Text
  | [] => if word.isEmpty then [] else [word]
  | c :: rest =>
    if isSpace c then
      if word.isEmpty then wordsFrom [] rest else word :: wordsFrom [] rest
    else wordsFrom (word ++ [c]) rest

/-- The maximal runs of characters that are not white space. -/
def words (t : Text) : List Text :=
  wordsFrom [] t

/-- Trimming leaves nothing exactly when the text is blank. -/
theorem trimStart_eq_nil_iff (t : Text) : trimStart t = [] ↔ isBlank t = true := by
  induction t with
  | nil => exact ⟨fun _ => rfl, fun _ => rfl⟩
  | cons c rest ih =>
    rw [trimStart, isBlank, List.dropWhile_cons, List.all_cons]
    cases isSpace c with
    | true => exact ih
    | false =>
      exact ⟨fun h => absurd h (List.cons_ne_nil c rest), fun h => absurd h Bool.false_ne_true⟩

end Text

end PromptScript
