import PromptScript.Proofs.Lexing.Plain
import PromptScript.Proofs.Parsing.Texts

/-!
# Scripts in a row

Where a script ends with a line break, the lexer reads the same phrases of it when another script
comes after it, as long as no brace or quote is left open, and then it reads the other script as if
that stood alone. Only the places of its tokens are others.
-/

namespace PromptScript

open Piece (scan isHorizontal lineBreak)

namespace Text

/-- The first line is the same with more text after a line break. -/
theorem cutLine_append_right {t : Text} (h : '\n' ∈ t) (more : Text) :
    cutLine (t ++ more) = ((cutLine t).1, (cutLine t).2 ++ more) := by
  induction t with
  | nil => cases h
  | cons c t ih =>
    rw [List.cons_append, cutLine, cutLine]
    by_cases hc : c = '\n'
    · rw [if_pos hc, if_pos hc]
    · rw [if_neg hc, if_neg hc, ih ((List.mem_cons.mp h).resolve_left (Ne.symm hc))]

/-- What is cut through a quote is the same with more text after it. -/
theorem cutQuote?_append_right {t text mid : Text} (h : cutQuote? t = some (text, mid))
    (more : Text) : cutQuote? (t ++ more) = some (text, mid ++ more) := by
  induction t generalizing text with
  | nil => cases h
  | cons c t ih =>
    rw [cutQuote?] at h
    rw [List.cons_append, cutQuote?]
    by_cases hline : c = '\n'
    · rw [if_pos hline] at h
      cases h
    · rw [if_neg hline] at h ⊢
      by_cases hquote : c = '"'
      · rw [if_pos hquote] at h ⊢
        cases h
        rfl
      · rw [if_neg hquote] at h ⊢
        obtain ⟨parts, hparts, heq⟩ := Option.map_eq_some_iff.mp h
        cases heq
        rw [ih hparts]
        rfl

/-- A quote that is not closed on its line is not closed by more text either. -/
theorem cutQuote?_append_of_eq_none {t : Text} (h : cutQuote? t = none) (hline : '\n' ∈ t)
    (more : Text) : cutQuote? (t ++ more) = none := by
  induction t with
  | nil => cases hline
  | cons c t ih =>
    rw [cutQuote?] at h
    rw [List.cons_append, cutQuote?]
    split
    · rfl
    · rename_i hc
      rw [if_neg hc] at h
      split at h
      · cases h
      · rename_i hquote
        rw [if_neg hquote, ih (Option.map_eq_none_iff.mp h) ((List.mem_cons.mp hline).resolve_left
          (Ne.symm hc))]
        rfl

/-- A fragment of a body is the same with more text after what follows it. -/
theorem cutBody_append_right {t : Text} (h : (cutBody t).2 ≠ []) (more : Text) :
    cutBody (t ++ more) = ((cutBody t).1, (cutBody t).2 ++ more) := by
  induction t with
  | nil => exact absurd rfl h
  | cons c t ih =>
    rw [List.cons_append, cutBody, cutBody]
    rw [cutBody] at h
    split
    · rfl
    · rename_i hbrace
      rw [if_neg hbrace] at h
      split
      · rfl
      · rename_i hline
        rw [if_neg hline] at h
        rw [ih h]

end Text

/-- A scan can be cut after a line break. -/
theorem Piece.scan_append_of_endsLine {t : Text} (h : t = [] ∨ Text.endsLine t = true)
    (more : Text) : scan (t ++ more) = scan t ++ scan more := by
  rcases h with rfl | h
  · simp
  · obtain ⟨init, rfl⟩ := List.getLast?_eq_some_iff.mp (eq_of_beq h)
    rw [List.append_assoc, List.singleton_append, scan_append_newline, scan_append_newline]
    simp

/-- A text that ends a line has a line break as its last piece. -/
theorem Piece.exists_scan_of_endsLine {t : Text} (h : Text.endsLine t = true) :
    ∃ ps, scan t = ps ++ [lineBreak] := by
  obtain ⟨init, rfl⟩ := List.getLast?_eq_some_iff.mp (eq_of_beq h)
  exact ⟨scan init, by rw [scan_append_newline, scan_nil]⟩

namespace Lexer

variable {ps : List Piece}

/-- A header in front is the same with more pieces after a line break. -/
theorem header?_append_right (h : ∃ init, ps = init ++ [lineBreak]) (qs : List Piece) :
    header? (ps ++ qs) = (header? ps).map fun parts => (parts.1, parts.2 ++ qs) := by
  obtain ⟨init, rfl⟩ := h
  rw [List.append_assoc, List.singleton_append, header?_append, header?_append, Option.map_map]
  simp [Function.comp_def]

/-- A statement in front is the same with more pieces after a line break. -/
theorem statement?_append_right (h : ∃ init, ps = init ++ [lineBreak]) (qs : List Piece) :
    statement? (ps ++ qs) = (statement? ps).map fun parts => (parts.1, parts.2 ++ qs) := by
  obtain ⟨init, rfl⟩ := h
  rw [List.append_assoc, List.singleton_append, statement?_append, statement?_append,
    Option.map_map]
  simp [Function.comp_def]

/-- Whether a reference begins does not depend on the pieces after a line break. -/
theorem startsReference_append_right (before : Option Char) (h : ∃ init, ps = init ++ [lineBreak])
    (qs : List Piece) :
    startsReference before (ps ++ qs) = startsReference before ps := by
  obtain ⟨init, rfl⟩ := h
  rw [List.append_assoc, List.singleton_append]
  cases init with
  | nil => rfl
  | cons p init =>
    rw [startsReference_append before (List.cons_ne_nil p init),
      startsReference_append before (List.cons_ne_nil p init)]

/-- A fragment of text is the same with more pieces after a line break. -/
theorem splitText_append_right (before : Option Char) (h : ∃ init, ps = init ++ [lineBreak])
    (qs : List Piece) :
    splitText before (ps ++ qs) = ((splitText before ps).1, (splitText before ps).2 ++ qs) := by
  fun_induction splitText before ps with
  | case1 =>
    obtain ⟨init, hinit⟩ := h
    cases init <;> cases hinit
  | case2 before p rest hstart =>
    have hsame := startsReference_append_right before h qs
    rw [List.cons_append] at hsame ⊢
    rw [splitText, hsame, if_pos hstart]
  | case3 before p rest hstart hkind =>
    have hsame := startsReference_append_right before h qs
    rw [List.cons_append] at hsame ⊢
    rw [splitText, hsame, if_neg hstart, if_pos hkind]
  | case4 before p rest hstart hkind ih =>
    have hsame := startsReference_append_right before h qs
    have hrest : ∃ init, rest = init ++ [lineBreak] := by
      obtain ⟨init, hinit⟩ := h
      cases init with
      | nil =>
        obtain ⟨rfl, -⟩ := List.cons.inj hinit
        exact absurd rfl hkind
      | cons q init => exact ⟨init, (List.cons.inj hinit).2⟩
    rw [List.cons_append] at hsame ⊢
    rw [splitText, hsame, if_neg hstart, if_neg hkind, ih hrest]

/-- What stands at the start of a line is the same with more pieces after a line break. -/
theorem Leads.append_right {before : Option Char} (h : Leads before ps)
    (hps : ∃ init, ps = init ++ [lineBreak]) (qs : List Piece) : Leads before (ps ++ qs) := by
  rw [Leads, header?_append_right hps, statement?_append_right hps,
    startsReference_append_right before hps, Option.isSome_map, Option.isSome_map]
  exact h

/-- What opens a line is the same with more pieces after a line break. -/
theorem opensLine_append_right (h : ∃ init, ps = init ++ [lineBreak]) (qs : List Piece) :
    opensLine (ps ++ qs) = opensLine ps := by
  obtain ⟨init, rfl⟩ := h
  rw [List.append_assoc, List.singleton_append, opensLine_append, opensLine_append]

/-- A comment is the same with more pieces after a line break. -/
theorem startsComment_append_right (h : ∃ init, ps = init ++ [lineBreak]) (qs : List Piece) :
    startsComment (ps ++ qs) = startsComment ps := by
  obtain ⟨init, rfl⟩ := h
  rw [List.append_assoc, List.singleton_append, startsComment_append, startsComment_append]

variable {lineStart ls : Bool} {before : Option Char} {rest after : Text} {ss : List Stretch}

/-- Whether no stretch is of a brace or a quote that is never closed. -/
def IsClosed (ss : List Stretch) : Prop :=
  ∀ text, Stretch.token .error text ∉ ss

/-- A body is the same with more text after it. -/
theorem Body.append_right {depth : Nat} (h : Body depth rest ss after) (more : Text) :
    Body depth (rest ++ more) ss (after ++ more) := by
  induction h with
  | close hdepth => exact .close hdepth
  | leave hdepth _ ih => exact .leave hdepth ih
  | enter _ ih => exact .enter ih
  | @fragment depth rest text mid after ss hne hcut hbody ih =>
    have hmid : (Text.cutBody rest).2 ≠ [] := by
      rw [hcut]
      rintro rfl
      obtain ⟨inner, hclosing, -⟩ := hbody.cut
      cases hclosing
    refine .fragment hne ?_ ih
    rw [Text.cutBody_append_right hmid, hcut]

/-- What follows a target is the same with more text after a line break, if that does not close a
brace that was left open. -/
theorem Tail.append_right {body : Option Text} (h : Tail rest ss body after)
    (hrest : Text.endsLine rest = true) {more : Text}
    (hopen : .token .error ['{'] ∈ ss → Text.cutClosing? 1 (after ++ more) = none) :
    Tail (rest ++ more) ss body (after ++ more) := by
  cases h with
  | bare h =>
    refine .bare ?_
    have hbreak : isHorizontal '\n' = false := by decide
    obtain ⟨init, rfl⟩ := List.getLast?_eq_some_iff.mp (eq_of_beq hrest)
    rw [Piece.dropWhile_append_cons hbreak] at h
    rw [List.append_assoc, List.singleton_append, Piece.dropWhile_append_cons hbreak]
    cases hinit : init.dropWhile isHorizontal with
    | nil => simp
    | cons c lead =>
      rw [hinit] at h
      exact h
  | unclosed hspace _ =>
    rw [List.append_assoc]
    exact .unclosed hspace (hopen (List.mem_append_right _ List.mem_cons_self))
  | braced hspace hbody hinner =>
    rw [List.append_assoc]
    exact .braced hspace (hbody.append_right more) hinner

/-- What is attached to a name is the same with more text after a line break, if that does not close
a brace that was left open. -/
theorem Attachment.append_right {colon : Bool} {target body : Option Text}
    (h : Attachment colon rest ss target body after) (hrest : Text.endsLine rest = true) {more : Text}
    (hopen : .token .error ['{'] ∈ ss → Text.cutClosing? 1 (after ++ more) = none) :
    Attachment colon (rest ++ more) ss target body (after ++ more) := by
  cases h with
  | @target rest text mid after ss body hcut htail =>
    have hmid : Text.endsLine mid = true := by
      obtain ⟨q, rfl, -, hline⟩ := Text.cutQuote?_eq_some hcut
      have hjoin := cutQuote?_join hcut
      cases mid with
      | nil =>
        have hlast : ('"' :: rest).getLast? = some '\n' := eq_of_beq hrest
        rw [← hjoin, List.append_nil] at hlast
        exact absurd (List.mem_of_getLast? hlast) (by simpa using hline)
      | cons c mid =>
        rw [← hjoin, ← List.cons_append, Text.endsLine_append (List.cons_ne_nil c mid)] at hrest
        exact hrest
    exact .target (Text.cutQuote?_append_right hcut more)
      (htail.append_right hmid fun hmem => hopen (List.mem_cons_of_mem _ hmem))
  | unclosed h =>
    have hline : '\n' ∈ '"' :: after := List.mem_of_getLast? (eq_of_beq hrest)
    exact .unclosed (Text.cutQuote?_append_of_eq_none h
      ((List.mem_cons.mp hline).resolve_left (by decide)) more)
  | plain hquote htail =>
    refine .plain (fun hcolon => ?_) (htail.append_right hrest hopen)
    cases rest with
    | nil => cases hrest
    | cons c rest => exact hquote hcolon

/-- What a phrase leaves of a text that ends a line is nothing or ends a line. -/
theorem Phrase.endsLine_after (h : Phrase lineStart before rest ss ls after)
    (hrest : Text.endsLine rest = true) : after = [] ∨ Text.endsLine after = true := by
  by_cases hne : after = []
  · exact Or.inl hne
  · rw [← h.join, Text.endsLine_append hne] at hrest
    exact Or.inr hrest

/-- What comes after the name of a reference ends the line that the two end together. -/
theorem endsLine_of_name {name : Text} (hname : name.all Text.isName = true)
    (hrest : Text.endsLine ('@' :: (name ++ rest)) = true) : Text.endsLine rest = true := by
  have hne : rest ≠ [] := by
    rintro rfl
    rw [List.append_nil] at hrest
    have hmem := List.mem_of_getLast? (eq_of_beq hrest)
    exact absurd hmem (by simpa using Text.not_mem_of_isName hname)
  rwa [← List.cons_append, Text.endsLine_append hne] at hrest

/-- A reference that begins in a text that ends a line begins there too with more text after it,
and then has what is attached to its name there. -/
theorem Phrase.reference_append {name more : Text} {target body : Option Text}
    (hname : name.all Text.isName = true) (hstops : Piece.stops Text.isName rest = true)
    (hstart : startsReference before (scan ('@' :: (name ++ rest))) = true)
    (hrest : Text.endsLine ('@' :: (name ++ rest)) = true)
    (h : Attachment (('@' :: name).getLast? == some ':') (rest ++ more) ss target body after) :
    Phrase lineStart before ('@' :: (name ++ rest) ++ more)
      (.token .referenceStart ['@'] :: (Stretch.ofText .identifier name ++ ss)) false after := by
  have hends := endsLine_of_name hname hrest
  have hscan := Piece.scan_append_of_endsLine (Or.inr hrest) more
  rw [List.cons_append, List.append_assoc] at hscan ⊢
  refine .reference hname ?_ ?_ h
  · cases rest with
    | nil => cases hends
    | cons c rest => exact hstops
  · rwa [hscan, startsReference_append_right before (Piece.exists_scan_of_endsLine hrest)]

/-- A phrase is the same with more text after a line break, if that does not close a brace that was
left open. -/
theorem Phrase.append_right (h : Phrase lineStart before rest ss ls after)
    (hrest : Text.endsLine rest = true) {more : Text}
    (hopen : .token .error ['{'] ∈ ss → Text.cutClosing? 1 (after ++ more) = none) :
    Phrase lineStart before (rest ++ more) ss ls (after ++ more) := by
  have hscan := Piece.scan_append_of_endsLine (Or.inr hrest) more
  have hlast := Piece.exists_scan_of_endsLine hrest
  have hafter := Piece.scan_append_of_endsLine (h.endsLine_after hrest) more
  cases h with
  | comment h =>
    have hbreak : '\n' ∈ rest := List.mem_of_getLast? (eq_of_beq hrest)
    have hline := Text.cutLine_append_right hbreak more
    have hcomment : startsComment (scan (rest ++ more)) = true := by
      rwa [hscan, startsComment_append_right hlast]
    have hphrase : Phrase true before _ _ _ _ := .comment hcomment
    rwa [hline] at hphrase
  | @indent _ space _ hne hspace h =>
    have hleadNe : after ≠ [] := by
      rintro rfl
      simp [Leads, header?, statement?, startsReference] at h
    rw [Text.endsLine_append hleadNe] at hrest
    rw [List.append_assoc]
    refine .indent hne hspace ?_
    rw [hafter]
    exact h.append_right (Piece.exists_scan_of_endsLine hrest) _
  | header h =>
    refine .header ?_
    rw [hscan, header?_append_right hlast, h, hafter]
    rfl
  | @statement _ _ text mid h =>
    have hjoin := (eq_append_of_taken (statement?_append_eq h)).1
    rw [Piece.join_scan] at hjoin
    have hmid : Text.endsLine mid = true := by
      cases mid with
      | nil =>
        rw [hjoin, List.append_nil] at hrest
        exact absurd (List.mem_of_getLast? (eq_of_beq hrest)) (not_mem_of_statement? h)
      | cons c mid => rwa [hjoin, Text.endsLine_append (List.cons_ne_nil c mid)] at hrest
    have hmore := Piece.scan_append_of_endsLine (Or.inr hmid) more
    have hline := Text.cutLine_append_right (List.mem_of_getLast? (eq_of_beq hmid)) more
    have hstatement : statement? (scan (rest ++ more)) = some (text, scan (mid ++ more)) := by
      rw [hscan, statement?_append_right hlast, h, hmore]
      rfl
    have hphrase : Phrase true before _ _ _ _ := .statement hstatement
    rwa [hline] at hphrase
  | @reference _ before name rest after ss target body hname hstops hstart h =>
    exact .reference_append hname hstops hstart hrest
      (h.append_right (endsLine_of_name hname hrest) fun hmem =>
        hopen (List.mem_cons_of_mem _ (List.mem_append_right _ hmem)))
  | @text _ before rest text after hne hline hstart h =>
    refine .text (by simp [hne]) (fun hls => ?_) ?_ ?_
    · rw [hscan, opensLine_append_right hlast, hline hls]
    · rw [hscan, startsReference_append_right before hlast, hstart]
    · rw [hscan, splitText_append_right before hlast, h, hafter]

/-- What follows a target does not end in a line break. -/
theorem Tail.endsLine_join {body : Option Text} (h : Tail rest ss body after) :
    Text.endsLine (Stretch.join ss) = false := by
  cases h with
  | bare => rfl
  | unclosed =>
    rw [Stretch.join_append, Text.endsLine_append (by simp [Stretch.text])]
    rfl
  | braced _ _ hinner =>
    rw [Stretch.join_append, Text.endsLine_append (by simp [Stretch.text]), Stretch.join_cons, hinner,
      ← List.append_assoc, Text.endsLine_append (by simp)]
    rfl

/-- What follows a name does not end in a line break. -/
theorem Attachment.endsLine_join {colon : Bool} {target body : Option Text}
    (h : Attachment colon rest ss target body after) :
    Text.endsLine (Stretch.join ss) = false := by
  cases h with
  | @target _ text mid _ ss _ hcut htail =>
    obtain ⟨q, rfl, -⟩ := Text.cutQuote?_eq_some hcut
    rw [Stretch.join_cons]
    cases hjoin : Stretch.join ss with
    | nil =>
      rw [List.append_nil, Stretch.text, ← List.cons_append, Text.endsLine_append (by simp)]
      rfl
    | cons c more =>
      rw [Text.endsLine_append (List.cons_ne_nil c more), ← hjoin, htail.endsLine_join]
  | unclosed => rfl
  | plain _ htail => exact htail.endsLine_join

/-- A phrase that ends a line leaves the start of a line. -/
theorem Phrase.lineStart_of_endsLine (h : Phrase lineStart before rest ss ls after)
    (hline : Text.endsLine (Stretch.join ss) = true) : ls = true := by
  cases h with
  | comment | indent | statement => rfl
  | header h =>
    rw [Stretch.join_cons, Stretch.join_nil, List.append_nil] at hline
    exact absurd (List.mem_of_getLast? (eq_of_beq hline)) (not_mem_of_header? h)
  | @reference _ _ name _ _ ss _ _ hname _ _ h =>
    rw [Stretch.join_cons, Stretch.join_append, Stretch.join_ofText, ← List.append_assoc] at hline
    cases hjoin : Stretch.join ss with
    | nil =>
      rw [hjoin, List.append_nil] at hline
      have hmem := List.mem_of_getLast? (eq_of_beq hline)
      exact absurd hmem (by simpa [Stretch.text] using Text.not_mem_of_isName hname)
    | cons c more =>
      rw [hjoin, Text.endsLine_append (List.cons_ne_nil c more), ← hjoin, h.endsLine_join] at hline
      cases hline
  | text =>
    rw [Stretch.join_cons, Stretch.join_nil, List.append_nil] at hline
    rw [Stretch.text] at hline
    rw [hline, Bool.true_or]

/-- The phrases of a script that ends a line, with nothing left open, and those of the script after
it are the phrases of the two in a row. -/
theorem Phrases.append {more : Text} {ts : List Stretch} (h : Phrases lineStart before rest ss)
    (hrest : rest = [] ∨ Text.endsLine rest = true)
    (hnil : rest = [] → lineStart = true ∧ before = some '\n') (hclosed : IsClosed ss)
    (hmore : Phrases true (some '\n') more ts) :
    Phrases lineStart before (rest ++ more) (ss ++ ts) := by
  induction h with
  | nil =>
    obtain ⟨rfl, rfl⟩ := hnil rfl
    exact hmore
  | @cons lineStart ls before rest after ss us h hus ih =>
    have hends : Text.endsLine rest = true := hrest.resolve_left fun hnil => by
      have hlt := h.length_lt
      rw [hnil] at hlt
      exact Nat.not_lt_zero _ hlt
    have hfirst : IsClosed ss := fun t hmem => hclosed t (List.mem_append_left _ hmem)
    have hothers : IsClosed us := fun t hmem => hclosed t (List.mem_append_right _ hmem)
    rw [List.append_assoc]
    refine .cons (h.append_right hends fun hmem => absurd hmem (hfirst _))
      (ih (h.endsLine_after hends) ?_ hothers)
    rintro rfl
    have hjoin := h.join
    rw [List.append_nil] at hjoin
    rw [hjoin]
    have hbreak : rest.getLast? = some '\n' := eq_of_beq hends
    exact ⟨h.lineStart_of_endsLine (by rw [hjoin, hends]), by rw [hbreak]; rfl⟩

/-- A phrase is the same after any character that is not one of a word. -/
theorem Phrase.congr_before {other : Option Char} (h : Phrase lineStart before rest ss ls after)
    (hbefore : IsFree before) (hother : IsFree other) : Phrase lineStart other rest ss ls after := by
  cases h with
  | comment h => exact .comment h
  | indent hne hspace h => exact .indent hne hspace h
  | header h => exact .header h
  | statement h => exact .statement h
  | reference hname hstops hstart h =>
    rw [startsReference_of_isFree hbefore, ← startsReference_of_isFree hother] at hstart
    exact .reference hname hstops hstart h
  | text hne hline hstart h =>
    rw [startsReference_of_isFree hbefore, ← startsReference_of_isFree hother] at hstart
    rw [splitText_of_isFree hbefore, ← splitText_of_isFree hother] at h
    exact .text hne hline hstart h

/-- Phrases in a row are the same after any character that is not one of a word. -/
theorem Phrases.congr_before {other : Option Char} (h : Phrases lineStart before rest ss)
    (hbefore : IsFree before) (hother : IsFree other) : Phrases lineStart other rest ss := by
  cases h with
  | nil => exact .nil
  | cons h hrest =>
    refine .cons (h.congr_before hbefore hother) ?_
    obtain ⟨c, hc⟩ := Option.ne_none_iff_exists'.mp (mt List.getLast?_eq_none_iff.mp h.join_ne_nil)
    rw [hc] at hrest ⊢
    exact hrest

/-- The phrases of lines that leave nothing open and those of a script after them are the phrases of
the two in a row. -/
theorem Phrases.append_lines {lines more : Text} {ts : List Stretch}
    (h : Phrases true none lines ss) (hlines : lines = [] ∨ Text.endsLine lines = true)
    (hclosed : IsClosed ss) (hmore : Phrases true none more ts) :
    Phrases true none (lines ++ more) (ss ++ ts) := by
  rcases hlines with rfl | hends
  · cases h with
    | nil => exact hmore
    | cons h _ => exact absurd h.length_lt (Nat.not_lt_zero _)
  · have hfree : IsFree (some '\n') := rfl
    refine h.append (Or.inr hends) (fun hnil => ?_) hclosed (hmore.congr_before rfl hfree)
    rw [hnil] at hends
    cases hends

end Lexer

end PromptScript
