import PromptScript.Document.Draft

/-!
# Tokens that are moved

Tokens of the same kinds and texts group into the same items, wherever they stand.
-/

namespace PromptScript

/-- Whether a change of tokens changes nothing but their places. -/
structure Token.OnlyMoves (f : Token → Token) : Prop where
  /-- The kinds stay the same. -/
  kind : ∀ t, (f t).kind = t.kind
  /-- The texts stay the same. -/
  text : ∀ t, (f t).text = t.text

namespace Item

/-- What follows a name and a target, with its tokens changed. -/
def Tail.map (f : Token → Token) : Tail → Tail
  | .none => .none
  | .braced opening inner closing => .braced (f opening) (inner.map f) (closing.map f)
  | .unterminated mark recovered => .unterminated (f mark) (recovered.map f)

/-- An item with its tokens changed. -/
def map (f : Token → Token) : Item → Item
  | .header t kind => .header (f t) kind
  | .statement keyword rest => .statement (f keyword) (rest.map f)
  | .text t => .text (f t)
  | .reference start name target tail =>
    .reference (f start) (name.map f) (target.map f) (tail.map f)
  | .stray t skipped => .stray (f t) (skipped.map f)

variable {f : Token → Token} (hf : Token.OnlyMoves f)
include hf

/-- Whether a token is of a kind does not depend on its place. -/
theorem takeKind_map (kind : Token.Kind) (tokens : List Token) :
    takeKind kind (tokens.map f) =
      ((takeKind kind tokens).1.map f, (takeKind kind tokens).2.map f) := by
  cases tokens with
  | nil => rfl
  | cons t rest =>
    rw [List.map_cons, takeKind, takeKind, hf.kind]
    split <;> rfl

/-- A body ends at the same token wherever its tokens stand. -/
theorem splitBraced_map (depth : Nat) (tokens : List Token) :
    splitBraced depth (tokens.map f) = ((splitBraced depth tokens).1.map f,
      (splitBraced depth tokens).2.1.map f, (splitBraced depth tokens).2.2.map f) := by
  induction tokens generalizing depth with
  | nil => rfl
  | cons t rest ih =>
    rw [List.map_cons, splitBraced, splitBraced, hf.kind]
    split
    · rfl
    · simp only [ih, List.map_cons]

/-- A run of text ends at the same token wherever it stands. -/
theorem splitText_map (tokens : List Token) :
    splitText (tokens.map f) = ((splitText tokens).1.map f, (splitText tokens).2.map f) := by
  have hkind : (fun t => (f t).kind == Token.Kind.text) = fun t => t.kind == .text :=
    funext fun t => by rw [hf.kind]
  simp only [splitText, List.takeWhile_map, List.dropWhile_map, Function.comp_def, hkind]

/-- A token that is only moved ends a line if it did. -/
theorem endsLine_of_onlyMoves (t : Token) : (f t).endsLine = t.endsLine := by
  rw [Token.endsLine, Token.endsLine, hf.text]

/-- Skipping stops at the same token wherever it stands. -/
theorem splitSkipped_map (tokens : List Token) :
    splitSkipped (tokens.map f) = ((splitSkipped tokens).1.map f, (splitSkipped tokens).2.map f) := by
  induction tokens with
  | nil => rfl
  | cons t rest ih =>
    have hresumes : resumes (f t) = resumes t := by rw [resumes, resumes, hf.kind]
    rw [List.map_cons, splitSkipped, splitSkipped, hresumes, endsLine_of_onlyMoves hf, ih]
    split
    · rfl
    · split <;> rfl

/-- A stray token skips the same tokens wherever they stand. -/
theorem strayItem_map (t : Token) (rest : List Token) :
    strayItem (f t) (rest.map f) = ((strayItem t rest).1.map f, (strayItem t rest).2.map f) := by
  rw [strayItem, strayItem, endsLine_of_onlyMoves hf, splitSkipped_map hf]
  split <;> rfl

/-- What follows a name is the same wherever its tokens stand. -/
theorem splitTail_map (tokens : List Token) :
    splitTail (tokens.map f) = ((splitTail tokens).1.map f, (splitTail tokens).2.map f) := by
  cases tokens with
  | nil => rfl
  | cons t rest =>
    rw [List.map_cons, splitTail, splitTail, hf.kind, splitBraced_map hf, splitText_map hf]
    split
    · rfl
    · split <;> rfl

/-- The item that begins with a token takes the same tokens wherever they stand. -/
theorem first_map (t : Token) (rest : List Token) :
    first (f t) (rest.map f) = ((first t rest).1.map f, (first t rest).2.map f) := by
  simp only [first, hf.kind, hf.text, takeKind_map hf, splitTail_map hf, strayItem_map hf]
  split
  · split <;> rfl
  all_goals rfl

/-- Tokens group into the same items wherever they stand. -/
theorem ofTokens_map (tokens : List Token) :
    ofTokens (tokens.map f) = (ofTokens tokens).map (Item.map f) := by
  fun_induction ofTokens tokens with
  | case1 => rw [List.map_nil, ofTokens, List.map_nil]
  | case2 t rest h => rw [List.map_cons, ofTokens, if_pos (by rw [hf.kind, h]), List.map_nil]
  | case3 t rest h ih =>
    rw [List.map_cons, ofTokens, if_neg (by rwa [hf.kind]), first_map hf, ih, List.map_cons]

/-- The text of tokens does not depend on their places. -/
theorem textOf_map (tokens : List Token) : Draft.textOf (tokens.map f) = Draft.textOf tokens := by
  simp only [Draft.textOf, List.flatMap_map, hf.text]

/-- The first brace inside another one is the same token wherever it stands. -/
theorem deepBrace?_map (depth : Nat) (tokens : List Token) :
    Draft.deepBrace? depth (tokens.map f) = (Draft.deepBrace? depth tokens).map f := by
  induction tokens generalizing depth with
  | nil => rfl
  | cons t tokens ih =>
    simp only [List.map_cons, Draft.deepBrace?, hf.kind, ih]
    split
    · split <;> rfl
    · split <;> rfl

end Item

end PromptScript
