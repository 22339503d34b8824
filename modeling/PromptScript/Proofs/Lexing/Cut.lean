import PromptScript.Proofs.Piece.Sound
import PromptScript.Token.Lexer

/-!
# Cutting pieces and cutting text

The lexer cuts its pieces at white space, line breaks, quotes and braces. On the pieces of a text
each of these cuts is a cut of the text itself, character by character, and what it leaves is
scanned afresh.
-/

namespace PromptScript

open Piece (scan scan_cons Sound join isHorizontal)

namespace Text

/-- The first line of a text with its line break, and the text after it. -/
def cutLine : Text → Text × Text
  | [] => ([], [])
  | c :: rest => if c = '\n' then ([c], rest) else (c :: (cutLine rest).1, (cutLine rest).2)

/-- Text through the next double quote on the line, and the text after it. -/
def cutQuote? : Text → Option (Text × Text)
  | [] => none
  | c :: rest =>
    if c = '\n' then none
    else if c = '"' then some ([c], rest)
    else (cutQuote? rest).map fun parts => (c :: parts.1, parts.2)

/-- Text up to the next brace or through the next line break, and the text after it. -/
def cutBody : Text → Text × Text
  | [] => ([], [])
  | c :: rest =>
    if c = '{' ∨ c = '}' then ([], c :: rest)
    else if c = '\n' then ([c], rest)
    else (c :: (cutBody rest).1, (cutBody rest).2)

/-- Text inside so many braces up to the brace that closes the first of them, and the text after
that brace. -/
def cutClosing? (depth : Nat) : Text → Option (Text × Text)
  | [] => none
  | c :: rest =>
    if c = '{' then (cutClosing? (depth + 1) rest).map fun parts => (c :: parts.1, parts.2)
    else if c = '}' then
      if depth ≤ 1 then some ([], rest)
      else (cutClosing? (depth - 1) rest).map fun parts => (c :: parts.1, parts.2)
    else (cutClosing? depth rest).map fun parts => (c :: parts.1, parts.2)

/-- What comes before a text that is not empty makes no difference to whether a line ends. -/
theorem endsLine_append {a b : Text} (hb : b ≠ []) : endsLine (a ++ b) = endsLine b := by
  obtain ⟨c, hc⟩ := Option.ne_none_iff_exists'.mp (mt List.getLast?_eq_none_iff.mp hb)
  simp [endsLine, List.getLast?_append, hc]

/-- The name of a reference holds no line break. -/
theorem not_mem_of_isName {name : Text} (h : name.all isName = true) : '\n' ∉ name :=
  fun hmem => absurd (List.all_eq_true.mp h _ hmem) (by decide)

/-- The cut of a line passes over text without a line break. -/
theorem cutLine_append {a : Text} (h : '\n' ∉ a) (b : Text) :
    cutLine (a ++ b) = (a ++ (cutLine b).1, (cutLine b).2) := by
  induction a with
  | nil => rfl
  | cons c a ih =>
    have hc := (List.ne_of_not_mem_cons h).symm
    have ha := List.not_mem_of_not_mem_cons h
    rw [List.cons_append, cutLine, if_neg hc, ih ha, List.cons_append]

/-- The cut at a quote passes over text that has neither a quote nor a line break. -/
theorem cutQuote?_append {a : Text} (hline : '\n' ∉ a) (hquote : '"' ∉ a) (b : Text) :
    cutQuote? (a ++ b) = (cutQuote? b).map fun parts => (a ++ parts.1, parts.2) := by
  induction a with
  | nil => simp
  | cons c a ih =>
    have hc := (List.ne_of_not_mem_cons hline).symm
    have ha := List.not_mem_of_not_mem_cons hline
    have hq := (List.ne_of_not_mem_cons hquote).symm
    have hb := List.not_mem_of_not_mem_cons hquote
    rw [List.cons_append, cutQuote?, if_neg hc, if_neg hq, ih ha hb, Option.map_map]
    rfl

/-- The cut within a body passes over text that has neither a brace nor a line break. -/
theorem cutBody_append {a : Text} (hline : '\n' ∉ a) (hleft : '{' ∉ a) (hright : '}' ∉ a)
    (b : Text) : cutBody (a ++ b) = (a ++ (cutBody b).1, (cutBody b).2) := by
  induction a with
  | nil => rfl
  | cons c a ih =>
    have hc := (List.ne_of_not_mem_cons hline).symm
    have ha := List.not_mem_of_not_mem_cons hline
    have hl := (List.ne_of_not_mem_cons hleft).symm
    have hla := List.not_mem_of_not_mem_cons hleft
    have hr := (List.ne_of_not_mem_cons hright).symm
    have hra := List.not_mem_of_not_mem_cons hright
    rw [List.cons_append, cutBody, if_neg (by simp [hl, hr]), if_neg hc, ih ha hla hra,
      List.cons_append]

/-- The cut at the closing brace passes over text without braces. -/
theorem cutClosing?_append {a : Text} (hleft : '{' ∉ a) (hright : '}' ∉ a) (depth : Nat)
    (b : Text) :
    cutClosing? depth (a ++ b) = (cutClosing? depth b).map fun parts => (a ++ parts.1, parts.2) := by
  induction a with
  | nil => simp
  | cons c a ih =>
    have hl := (List.ne_of_not_mem_cons hleft).symm
    have hla := List.not_mem_of_not_mem_cons hleft
    have hr := (List.ne_of_not_mem_cons hright).symm
    have hra := List.not_mem_of_not_mem_cons hright
    rw [List.cons_append, cutClosing?, if_neg hl, if_neg hr, ih hla hra, Option.map_map]
    rfl

/-- A line and the text after it make up the text. -/
theorem cutLine_join (t : Text) : (cutLine t).1 ++ (cutLine t).2 = t := by
  induction t with
  | nil => rfl
  | cons c t ih =>
    rw [cutLine]
    split
    · rfl
    · rw [List.cons_append, ih]

/-- A line without its last character holds no line break. -/
theorem not_mem_dropLast_cutLine (t : Text) : '\n' ∉ (cutLine t).1.dropLast := by
  induction t with
  | nil => simp [cutLine]
  | cons c t ih =>
    rw [cutLine]
    split
    · simp
    · rename_i hc
      cases hline : (cutLine t).1 with
      | nil => simp
      | cons d line =>
        rw [hline] at ih
        rw [List.dropLast_cons_cons]
        simpa [Ne.symm hc] using ih

/-- A line ends in a line break, or nothing comes after it. -/
theorem endsLine_cutLine (t : Text) :
    endsLine (cutLine t).1 = true ∨ (cutLine t).2 = [] := by
  induction t with
  | nil => exact Or.inr rfl
  | cons c t ih =>
    rw [cutLine]
    split
    · rename_i hc
      subst hc
      exact Or.inl rfl
    · refine ih.imp (fun h => ?_) id
      unfold endsLine at h ⊢
      cases hline : (cutLine t).1 with
      | nil => simp [hline] at h
      | cons d line =>
        rw [hline] at h
        rwa [List.getLast?_cons_cons]

/-- A fragment of a body and the text after it make up the text. -/
theorem cutBody_join (t : Text) : (cutBody t).1 ++ (cutBody t).2 = t := by
  induction t with
  | nil => rfl
  | cons c t ih =>
    rw [cutBody]
    split
    · rfl
    · split
      · rfl
      · rw [List.cons_append, ih]

/-- A fragment of a body holds no brace. -/
theorem not_mem_cutBody {c : Char} (hc : c = '{' ∨ c = '}') (t : Text) : c ∉ (cutBody t).1 := by
  induction t with
  | nil => simp [cutBody]
  | cons x t ih =>
    rw [cutBody]
    split
    · simp
    · rename_i hx
      have hne : c ≠ x := by
        rintro rfl
        exact hx hc
      split
      · simpa using hne
      · simpa [hne] using ih

end Text

namespace Lexer

/-- Taking white space from the pieces of a text takes the white space in front of the text. -/
theorem splitSpace_scan (t : Text) :
    splitSpace (scan t) = (t.takeWhile isHorizontal, scan (t.dropWhile isHorizontal)) := by
  cases t with
  | nil => simp [splitSpace]
  | cons c rest =>
    by_cases hc : isHorizontal c = true
    · have hall : (c :: rest.takeWhile isHorizontal).all isHorizontal = true := by
        rw [List.all_cons, hc, List.all_takeWhile]
        rfl
      have hscan := Piece.scan_space (List.cons_ne_nil _ _) hall
        (Piece.stops_dropWhile isHorizontal rest)
      rw [List.cons_append, List.takeWhile_append_dropWhile] at hscan
      rw [hscan, splitSpace, if_pos rfl, List.takeWhile_cons_of_pos hc, List.dropWhile_cons_of_pos hc]
    · have hkind : (Piece.first c rest).1.kind ≠ .space := by
        intro hkind
        obtain ⟨-, hall⟩ := (Piece.sound_first c rest).of_space hkind
        have hjoin := Piece.first_append c rest
        obtain ⟨hne, -⟩ := (Piece.sound_first c rest).of_space hkind
        cases htext : (Piece.first c rest).1.text with
        | nil => exact hne htext
        | cons x xs =>
          rw [htext] at hjoin hall
          have hx : x = c := (List.cons.inj hjoin).1
          rw [hx, List.all_cons, Bool.and_eq_true] at hall
          exact hc hall.1
      rw [List.takeWhile_cons_of_neg hc, List.dropWhile_cons_of_neg hc, scan_cons, splitSpace,
        if_neg hkind]

/-- Taking a line from the pieces of a text takes the first line of the text. -/
theorem splitLine_scan (t : Text) :
    splitLine (scan t) = ((Text.cutLine t).1, scan (Text.cutLine t).2) := by
  fun_induction scan t with
  | case1 => simp [splitLine, Text.cutLine]
  | case2 c rest ih =>
    have hsound := Piece.sound_first c rest
    rw [splitLine, ← Piece.first_append c rest]
    by_cases hkind : (Piece.first c rest).1.kind = .newline
    · rw [if_pos hkind, hsound.eq_newline hkind]
      rfl
    · rw [if_neg hkind, ih, Text.cutLine_append (hsound.not_mem_newline hkind)]

/-- Looking for a quote among the pieces of a text looks for it in the text. -/
theorem splitQuote?_scan (t : Text) :
    splitQuote? (scan t) = (Text.cutQuote? t).map fun parts => (parts.1, scan parts.2) := by
  fun_induction scan t with
  | case1 => simp [splitQuote?, Text.cutQuote?]
  | case2 c rest ih =>
    have hsound := Piece.sound_first c rest
    rw [splitQuote?, ← Piece.first_append c rest]
    by_cases hkind : (Piece.first c rest).1.kind = .newline
    · rw [if_pos hkind, hsound.eq_newline hkind]
      rfl
    · rw [if_neg hkind]
      by_cases hquote : (Piece.first c rest).1.kind = .quote
      · rw [if_pos hquote, hsound.eq_quote hquote]
        rfl
      · rw [if_neg hquote, ih, Text.cutQuote?_append (hsound.not_mem_newline hkind)
          (hsound.not_mem_quote hquote), Option.map_map, Option.map_map]
        rfl

/-- Taking a fragment of a body from the pieces of a text takes it from the text. -/
theorem splitBody_scan (t : Text) :
    splitBody (scan t) = ((Text.cutBody t).1, scan (Text.cutBody t).2) := by
  fun_induction scan t with
  | case1 => simp [splitBody, Text.cutBody]
  | case2 c rest ih =>
    have hsound := Piece.sound_first c rest
    rw [splitBody, ← scan_cons, ← Piece.first_append c rest]
    by_cases hleft : (Piece.first c rest).1.kind = .leftBrace
    · rw [if_pos (Or.inl hleft), hsound.eq_leftBrace hleft]
      rfl
    · by_cases hright : (Piece.first c rest).1.kind = .rightBrace
      · rw [if_pos (Or.inr hright), hsound.eq_rightBrace hright]
        rfl
      · rw [if_neg (by simp [hleft, hright])]
        by_cases hkind : (Piece.first c rest).1.kind = .newline
        · rw [if_pos hkind, hsound.eq_newline hkind]
          rfl
        · rw [if_neg hkind, ih, Text.cutBody_append (hsound.not_mem_newline hkind)
            (hsound.not_mem_leftBrace hleft) (hsound.not_mem_rightBrace hright)]

/-- The pieces of a text close as many braces as are open if the text does. -/
theorem closes_scan (depth : Nat) (t : Text) :
    closes depth (scan t) = (Text.cutClosing? depth t).isSome := by
  fun_induction scan t generalizing depth with
  | case1 => rfl
  | case2 c rest ih =>
    have hsound := Piece.sound_first c rest
    rw [closes, ← Piece.first_append c rest]
    by_cases hleft : (Piece.first c rest).1.kind = .leftBrace
    · rw [if_pos hleft, ih, hsound.eq_leftBrace hleft]
      simp [Text.cutClosing?]
    · rw [if_neg hleft]
      by_cases hright : (Piece.first c rest).1.kind = .rightBrace
      · rw [if_pos hright, ih, hsound.eq_rightBrace hright, List.singleton_append, Text.cutClosing?,
          if_neg (by decide), if_pos rfl]
        by_cases hdepth : depth ≤ 1 <;> simp [hdepth]
      · rw [if_neg hright, ih, Text.cutClosing?_append (hsound.not_mem_leftBrace hleft)
          (hsound.not_mem_rightBrace hright), Option.isSome_map]

end Lexer

end PromptScript
