import PromptScript.Proofs.Lexing.Cut

/-!
# Phrases

A script is a sequence of phrases: comment lines, headers, statements with the rest of their
line, indents, references with all that is attached to them, and fragments of text. The rules
here say what each phrase looks like and which stretches it is made of; where the lexer stands in
running text, it reads one phrase after another.
-/

namespace PromptScript

open Piece (scan isHorizontal)

/-- A stretch of a script: the text of a token, or text that no token holds. -/
inductive Stretch where
  /-- The text of a token of a kind. -/
  | token (kind : Token.Kind) (text : Text)
  /-- A comment line. -/
  | comment (text : Text)
  /-- White space before the brace of a reference. -/
  | gap (text : Text)
  deriving DecidableEq, Repr

namespace Stretch

/-- The characters of a stretch. -/
def text : Stretch → Text
  | .token _ text => text
  | .comment text => text
  | .gap text => text

/-- The characters of stretches in a row. -/
def join (ss : List Stretch) : Text :=
  ss.flatMap text

/-- The tokens of stretches that stand in a row at a place. -/
def tokens (p : Position) : List Stretch → List Token
  | [] => []
  | .token kind text :: rest => ⟨kind, text, p⟩ :: tokens (p.advance text) rest
  | s :: rest => tokens (p.advance s.text) rest

@[simp] theorem join_nil : join [] = [] := rfl

@[simp] theorem join_cons (s : Stretch) (ss : List Stretch) : join (s :: ss) = s.text ++ join ss :=
  rfl

/-- The texts of stretches in a row are those of the one part and then those of the other. -/
@[simp] theorem join_append (ss ts : List Stretch) : join (ss ++ ts) = join ss ++ join ts :=
  List.flatMap_append

/-- The tokens of stretches in a row are those of the first and those of the others. -/
theorem tokens_append (p : Position) (ss ts : List Stretch) :
    tokens p (ss ++ ts) = tokens p ss ++ tokens (p.advance (join ss)) ts := by
  induction ss generalizing p with
  | nil => rfl
  | cons s ss ih =>
    cases s <;> simp only [List.cons_append, tokens, ih, join_cons, Position.advance_append, text]

/-- A token of stretches is that of one of them. -/
theorem mem_of_mem_tokens {p : Position} {ss : List Stretch} {t : Token} (h : t ∈ tokens p ss) :
    .token t.kind t.text ∈ ss := by
  induction ss generalizing p with
  | nil => cases h
  | cons s ss ih =>
    cases s with
    | token kind text =>
      rcases List.mem_cons.mp h with rfl | h
      · exact List.mem_cons_self
      · exact List.mem_cons_of_mem _ (ih h)
    | comment text => exact List.mem_cons_of_mem _ (ih h)
    | gap text => exact List.mem_cons_of_mem _ (ih h)

/-- A stretch of a token, unless its text is empty. -/
def ofText (kind : Token.Kind) (text : Text) : List Stretch :=
  if text.isEmpty then [] else [.token kind text]

/-- White space that no token holds, if there is any. -/
def ofGap (space : Text) : List Stretch :=
  if space.isEmpty then [] else [.gap space]

/-- A text that may be empty is what its stretches hold. -/
@[simp] theorem join_ofText (kind : Token.Kind) (text : Text) : join (ofText kind text) = text := by
  cases text <;> simp [ofText, Stretch.text]

/-- The gap before a brace is what its stretches hold. -/
@[simp] theorem join_ofGap (space : Text) : join (ofGap space) = space := by
  cases space <;> simp [ofGap, Stretch.text]

end Stretch

namespace Lexer

/-- The body of a reference inside so many braces, through the brace that closes the first of
them: its stretches and the text after it. -/
inductive Body : Nat → Text → List Stretch → Text → Prop
  | close {depth : Nat} {rest : Text} (hdepth : depth ≤ 1) :
      Body depth ('}' :: rest) [.token .braceClose ['}']] rest
  | leave {depth : Nat} {rest after : Text} {ss : List Stretch} (hdepth : 1 < depth)
      (h : Body (depth - 1) rest ss after) :
      Body depth ('}' :: rest) (.token .braceClose ['}'] :: ss) after
  | enter {depth : Nat} {rest after : Text} {ss : List Stretch}
      (h : Body (depth + 1) rest ss after) :
      Body depth ('{' :: rest) (.token .braceOpen ['{'] :: ss) after
  | fragment {depth : Nat} {rest text mid after : Text} {ss : List Stretch} (hne : text ≠ [])
      (hcut : Text.cutBody rest = (text, mid)) (h : Body depth mid ss after) :
      Body depth rest (.token .text text :: ss) after

/-- A body ends where the text closes the braces that are open. -/
theorem Body.cut {depth : Nat} {rest after : Text} {ss : List Stretch}
    (h : Body depth rest ss after) : ∃ inner, Text.cutClosing? depth rest = some (inner, after) ∧
      Stretch.join ss = inner ++ ['}'] := by
  induction h with
  | close hdepth =>
    refine ⟨[], ?_, rfl⟩
    rw [Text.cutClosing?, if_neg (by decide), if_pos rfl, if_pos hdepth]
  | leave hdepth _ ih =>
    obtain ⟨inner, hcut, hjoin⟩ := ih
    refine ⟨'}' :: inner, ?_, ?_⟩
    · rw [Text.cutClosing?, if_neg (by decide), if_pos rfl, if_neg (by omega), hcut]
      rfl
    · rw [Stretch.join_cons, hjoin]
      rfl
  | enter _ ih =>
    obtain ⟨inner, hcut, hjoin⟩ := ih
    refine ⟨'{' :: inner, ?_, ?_⟩
    · rw [Text.cutClosing?, if_pos rfl, hcut]
      rfl
    · rw [Stretch.join_cons, hjoin]
      rfl
  | @fragment depth rest text mid after ss hne hsplit _ ih =>
    obtain ⟨inner, hcut, hjoin⟩ := ih
    have hleft := Text.not_mem_cutBody (Or.inl rfl) rest
    have hright := Text.not_mem_cutBody (Or.inr rfl) rest
    have hrest := Text.cutBody_join rest
    rw [hsplit] at hleft hright hrest
    refine ⟨text ++ inner, ?_, ?_⟩
    · rw [← hrest, Text.cutClosing?_append hleft hright, hcut]
      rfl
    · rw [Stretch.join_cons, hjoin, List.append_assoc]
      rfl

/-- A text that closes the braces that are open begins with a body. -/
theorem exists_body {depth : Nat} {rest inner after : Text}
    (h : Text.cutClosing? depth rest = some (inner, after)) : ∃ ss, Body depth rest ss after := by
  induction hn : rest.length using Nat.strongRecOn generalizing depth rest inner with
  | _ n ih =>
    cases rest with
    | nil => cases h
    | cons c rest =>
      rw [List.length_cons] at hn
      by_cases hleft : c = '{'
      · subst hleft
        rw [Text.cutClosing?, if_pos rfl, Option.map_eq_some_iff] at h
        obtain ⟨parts, hparts, heq⟩ := h
        cases heq
        obtain ⟨ss, hss⟩ := ih rest.length (by omega) hparts rfl
        exact ⟨_, .enter hss⟩
      · by_cases hright : c = '}'
        · subst hright
          rw [Text.cutClosing?, if_neg hleft, if_pos rfl] at h
          split at h
          · rename_i hdepth
            cases h
            exact ⟨_, .close hdepth⟩
          · rename_i hdepth
            obtain ⟨parts, hparts, heq⟩ := Option.map_eq_some_iff.mp h
            cases heq
            obtain ⟨ss, hss⟩ := ih rest.length (by omega) hparts rfl
            exact ⟨_, .leave (by omega) hss⟩
        · have hne : (Text.cutBody (c :: rest)).1 ≠ [] := by
            rw [Text.cutBody, if_neg (by simp [hleft, hright])]
            split <;> simp
          have hjoin := Text.cutBody_join (c :: rest)
          have hlength := congrArg List.length hjoin
          have hpos := List.length_pos_iff.mpr hne
          simp only [List.length_append, List.length_cons] at hlength
          rw [← hjoin, Text.cutClosing?_append (Text.not_mem_cutBody (Or.inl rfl) _)
            (Text.not_mem_cutBody (Or.inr rfl) _), Option.map_eq_some_iff] at h
          obtain ⟨parts, hparts, heq⟩ := h
          cases heq
          obtain ⟨ss, hss⟩ := ih (Text.cutBody (c :: rest)).2.length (by omega) hparts rfl
          exact ⟨_, .fragment hne rfl hss⟩

/-- What follows the name and the target of a reference: nothing, a brace that is never closed,
or a body in braces. It gives the body of the reference, unless that is recovered from the text
after the brace. -/
inductive Tail : Text → List Stretch → Option Text → Text → Prop
  | bare {rest : Text} (h : (rest.dropWhile isHorizontal).head? ≠ some '{') :
      Tail rest [] (some []) rest
  | unclosed {space rest : Text} (hspace : space.all isHorizontal = true)
      (h : Text.cutClosing? 1 rest = none) :
      Tail (space ++ '{' :: rest) (Stretch.ofGap space ++ [.token .error ['{']]) none rest
  | braced {space rest inner after : Text} {ss : List Stretch}
      (hspace : space.all isHorizontal = true) (h : Body 1 rest ss after)
      (hinner : Stretch.join ss = inner ++ ['}']) :
      Tail (space ++ '{' :: rest) (Stretch.ofGap space ++ .token .braceOpen ['{'] :: ss)
        (some inner) after

/-- What follows the name of a reference: after a colon a target or a quote that is never closed,
and otherwise only what may follow a target. It gives the target in its quotes and the body. -/
inductive Attachment : Bool → Text → List Stretch → Option Text → Option Text → Text → Prop
  | target {rest text mid after : Text} {ss : List Stretch} {body : Option Text}
      (hcut : Text.cutQuote? rest = some (text, mid)) (h : Tail mid ss body after) :
      Attachment true ('"' :: rest) (.token .target ('"' :: text) :: ss) (some ('"' :: text)) body
        after
  | unclosed {rest : Text} (h : Text.cutQuote? rest = none) :
      Attachment true ('"' :: rest) [.token .error ['"']] none none rest
  | plain {colon : Bool} {rest after : Text} {ss : List Stretch} {body : Option Text}
      (hquote : colon = true → rest.head? ≠ some '"') (h : Tail rest ss body after) :
      Attachment colon rest ss none body after

/-- Whether a line that begins here begins with something else than text: a comment, a header, a
statement, or white space before one of these or before a reference. -/
def opensLine (ps : List Piece) : Bool :=
  startsComment ps || (header? (splitSpace ps).2).isSome || (statement? (splitSpace ps).2).isSome ||
    (!(splitSpace ps).1.isEmpty && startsReference (splitSpace ps).1.getLast? (splitSpace ps).2)

/-- A construct that an indent may stand before: a header, a statement or a reference. -/
def Leads (before : Option Char) (ps : List Piece) : Prop :=
  (header? ps).isSome ∨ (statement? ps).isSome ∨ startsReference before ps = true

/-- A phrase in front of a text: its stretches, and the text after it. What comes before is given
by whether only white space was seen on the line and by the character just passed; the phrase says
whether only white space is seen after it. -/
inductive Phrase : Bool → Option Char → Text → List Stretch → Bool → Text → Prop
  | comment {before : Option Char} {rest : Text} (h : startsComment (scan rest) = true) :
      Phrase true before rest [.comment (Text.cutLine rest).1] true (Text.cutLine rest).2
  | indent {before : Option Char} {space lead : Text} (hne : space ≠ [])
      (hspace : space.all isHorizontal = true)
      (h : Leads space.getLast? (scan lead)) :
      Phrase true before (space ++ lead) [.token .text space] true lead
  | header {before : Option Char} {rest text after : Text}
      (h : header? (scan rest) = some (text, scan after)) :
      Phrase true before rest [.token .sectionKeyword text] false after
  | statement {before : Option Char} {rest text mid : Text}
      (h : statement? (scan rest) = some (text, scan mid)) :
      Phrase true before rest
        (.token .statementKeyword text :: Stretch.ofText .text (Text.cutLine mid).1) true
        (Text.cutLine mid).2
  | reference {lineStart : Bool} {before : Option Char} {name rest after : Text}
      {ss : List Stretch} {target body : Option Text} (hname : name.all Text.isName = true)
      (hrest : Piece.stops Text.isName rest = true)
      (hstart : startsReference before (scan ('@' :: (name ++ rest))) = true)
      (h : Attachment (('@' :: name).getLast? == some ':') rest ss target body after) :
      Phrase lineStart before ('@' :: (name ++ rest))
        (.token .referenceStart ['@'] :: (Stretch.ofText .identifier name ++ ss)) false after
  | text {lineStart : Bool} {before : Option Char} {rest text after : Text} (hne : rest ≠ [])
      (hline : lineStart = true → opensLine (scan rest) = false)
      (hstart : startsReference before (scan rest) = false)
      (h : splitText before (scan rest) = (text, scan after)) :
      Phrase lineStart before rest [.token .text text]
        (Text.endsLine text || (lineStart && Text.isBlank text)) after

end Lexer

end PromptScript
