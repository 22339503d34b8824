import PromptScript.Proofs.Composition.Front
import PromptScript.Proofs.Composition.Places
import PromptScript.Proofs.Lexing.Tiling

/-!
# Comments

A comment line between the lines of a script is no part of what it says. Outside the bodies of
references the lexer stands at the start of a line there, passes the comment and reads on as
before, also where a brace or a quote is left open before it; a comment without braces closes none.
So all tokens stay the same but for the places of those after the comment.
-/

namespace PromptScript

open Piece (isHorizontal scan)

namespace Text

/-- Whether a text is a comment line without braces: white space, a number sign, and any text up to
the end of the line. -/
def IsCommentLine (line : Text) : Prop :=
  ∃ indent note, line = indent ++ '#' :: note ++ ['\n'] ∧ indent.all isHorizontal = true ∧
    '\n' ∉ note ∧ '{' ∉ note ∧ '}' ∉ note

variable {line : Text}

/-- The lexer sees a comment in a comment line, whatever comes after it. -/
theorem IsCommentLine.startsComment (h : IsCommentLine line) (more : Text) :
    Lexer.startsComment (scan (line ++ more)) = true := by
  obtain ⟨indent, note, rfl, hindent, -⟩ := h
  have hdrop : (indent ++ '#' :: note ++ ['\n'] ++ more).dropWhile isHorizontal =
      '#' :: note ++ ['\n'] ++ more := by
    rw [List.append_assoc, List.append_assoc,
      List.dropWhile_append_of_pos (List.all_eq_true.mp hindent), List.cons_append,
      List.dropWhile_cons_of_neg (by decide)]
    simp
  rw [Lexer.startsComment_scan_iff, hdrop]
  rfl

/-- A comment line is the first line of a text that it begins. -/
theorem IsCommentLine.cutLine (h : IsCommentLine line) (more : Text) :
    Text.cutLine (line ++ more) = (line, more) := by
  obtain ⟨indent, note, rfl, hindent, hnote, -⟩ := h
  have hfront : '\n' ∉ indent ++ '#' :: note := by
    simpa [hnote] using Piece.not_mem_newline_of_isHorizontal hindent
  rw [List.append_assoc, cutLine_append hfront]
  rfl

/-- A comment line has one line break. -/
theorem IsCommentLine.count_newline (h : IsCommentLine line) : line.count '\n' = 1 := by
  obtain ⟨indent, note, rfl, hindent, hnote, -⟩ := h
  have hspace := Piece.not_mem_newline_of_isHorizontal hindent
  simp [List.count_eq_zero.mpr hspace, List.count_eq_zero.mpr hnote]

/-- A comment line ends with its line break. -/
theorem IsCommentLine.endsLine (h : IsCommentLine line) : Text.endsLine line = true := by
  obtain ⟨indent, note, rfl, -⟩ := h
  rw [Text.endsLine, List.getLast?_concat]
  rfl

/-- White space within a line holds no brace. -/
theorem not_mem_brace_of_isHorizontal {space : Text} (h : space.all isHorizontal = true) :
    '{' ∉ space ∧ '}' ∉ space :=
  ⟨fun hmem => absurd (List.all_eq_true.mp h _ hmem) (by decide),
    fun hmem => absurd (List.all_eq_true.mp h _ hmem) (by decide)⟩

/-- Text that closes no more braces than another does closes no more of them after a text either. -/
theorem cutClosing?_append_eq_none {a b : Text}
    (h : ∀ depth, cutClosing? depth a = none → cutClosing? depth b = none) (t : Text) {depth : Nat}
    (ha : cutClosing? depth (t ++ a) = none) : cutClosing? depth (t ++ b) = none := by
  induction t generalizing depth with
  | nil => exact h depth ha
  | cons c t ih =>
    rw [List.cons_append, cutClosing?] at ha ⊢
    split at ha
    · rename_i hleft
      rw [if_pos hleft, ih (Option.map_eq_none_iff.mp ha)]
      rfl
    · rename_i hleft
      rw [if_neg hleft]
      split at ha
      · rename_i hright
        rw [if_pos hright]
        split at ha
        · cases ha
        · rename_i hdepth
          rw [if_neg hdepth, ih (Option.map_eq_none_iff.mp ha)]
          rfl
      · rename_i hright
        rw [if_neg hright, ih (Option.map_eq_none_iff.mp ha)]
        rfl

/-- A brace that is never closed is not closed with a comment in between either. -/
theorem IsCommentLine.cutClosing?_eq_none (h : IsCommentLine line) {t post : Text}
    (hnone : cutClosing? 1 (t ++ post) = none) : cutClosing? 1 (t ++ (line ++ post)) = none := by
  obtain ⟨indent, note, rfl, hindent, -, hleft, hright⟩ := h
  obtain ⟨hindentLeft, hindentRight⟩ := not_mem_brace_of_isHorizontal hindent
  refine cutClosing?_append_eq_none (fun depth hpost => ?_) t hnone
  rw [cutClosing?_append (by simp [hindentLeft, hleft]) (by simp [hindentRight, hright]), hpost]
  rfl

end Text

namespace Lexer

variable {pre post rest : Text} {passed more : List Stretch} {lineStart : Bool}

/-- A walk and the phrases of all of the text ahead are a walk to the end. -/
theorem Walk.exists_end (h : Walk pre passed lineStart rest)
    (hmore : Phrases lineStart (Stretch.join passed).getLast? rest more) :
    ∃ ls, Walk pre (passed ++ more) ls [] := by
  generalize hbefore : (Stretch.join passed).getLast? = before at hmore
  induction hmore generalizing passed with
  | nil => exact ⟨_, by rwa [List.append_nil]⟩
  | @cons _ _ _ _ _ ss ts hphrase _ ih =>
    subst hbefore
    rw [← List.append_assoc]
    exact ih (h.step hphrase) (by rw [Stretch.join_append, List.getLast?_append])

/-- A walk over lines that are not cut in the body of a reference is a walk over them with other
text after them, if that closes no more of the braces that are left open. -/
theorem Walk.append_of_cut (h : Walk pre passed lineStart rest)
    (hpre : pre = [] ∨ Text.endsLine pre = true)
    (hcut : ¬Token.InBody (Token.before (.after pre) (Token.ofText (pre ++ post)))) {other : Text}
    (hother : ∀ t, Text.cutClosing? 1 (t ++ post) = none → Text.cutClosing? 1 (t ++ other) = none) :
    Walk (pre ++ other) passed lineStart (rest ++ other) := by
  induction h generalizing other with
  | start => exact .start
  | @step passed ss lineStart ls rest after h hphrase ih =>
    have hends := h.endsLine hphrase hpre
    refine .step (ih hother) (hphrase.append_right hends fun hmem => hother after ?_)
    -- a brace that the text after the lines closed would have their end in its body
    refine Classical.byContradiction fun hclosed => ?_
    obtain ⟨us, back, left, z, hus, hz, hjoin⟩ := hphrase.closesPast hends hmem hclosed
    exact hcut (Token.inBody_of_past (ih fun t ht => ht) hus h.join hends hjoin hz)

end Lexer

namespace Token

variable {pre line post : Text}

/-- A comment between the lines of a script moves the tokens after it one line down and leaves all
others as they are. -/
theorem exists_ofText_comment (hpre : pre = [] ∨ Text.endsLine pre = true)
    (hcut : ¬InBody (before (.after pre) (ofText (pre ++ post)))) (hline : Text.IsCommentLine line) :
    ∃ ts us, ofText (pre ++ post) = ts ++ us ∧
      ofText (pre ++ line ++ post) = ts ++ us.map (down 1) := by
  obtain ⟨ss, hss⟩ := Lexer.exists_phrases true none pre
  obtain ⟨ls, hwalk⟩ := Lexer.Walk.start.exists_end hss
  rw [List.nil_append] at hwalk
  obtain rfl := hwalk.lineStart_of_endsLine (by rwa [hss.join])
  obtain ⟨us, hus⟩ := Lexer.exists_phrases true (Stretch.join ss).getLast? post
  have hplain := (hwalk.append_of_cut hpre hcut fun t ht => ht).phrases hus
  have hcomment : Lexer.Phrase true (Stretch.join ss).getLast? (line ++ post) [.comment line] true post := by
    have hphrase : Lexer.Phrase true (Stretch.join ss).getLast? _ _ _ _ :=
      .comment (hline.startsComment post)
    rwa [hline.cutLine] at hphrase
  have hafter : Lexer.Phrases true (Stretch.join (ss ++ [.comment line])).getLast? post us := by
    have hbefore : Lexer.IsFree (Stretch.join ss).getLast? := by
      rw [hss.join]
      rcases hpre with rfl | hends
      · rfl
      · rw [eq_of_beq hends]
        rfl
    refine hus.congr_before hbefore ?_
    have hlast : line.getLast? = some '\n' := eq_of_beq hline.endsLine
    have hbreak : (Stretch.join (ss ++ [.comment line])).getLast? = some '\n' := by
      simp [Stretch.text, List.getLast?_append, hlast]
    rw [hbreak]
    rfl
  have hlong := ((hwalk.append_of_cut hpre hcut fun t ht => hline.cutClosing?_eq_none ht).step
    hcomment).phrases hafter
  have hplace : (Position.start.advance pre).advance line = (Position.start.advance pre).down 1 := by
    have hstart : Position.start.advance pre = Position.start.down (pre.count '\n') := by
      rcases hpre with rfl | hends
      · rfl
      · exact Position.advance_start_of_endsLine hends
    rw [hstart, Position.advance_down, Position.advance_start_of_endsLine hline.endsLine,
      hline.count_newline]
    simp only [Position.down, Position.mk.injEq, and_true]
    omega
  have htokens : ofText (pre ++ post) = _ := hplain.tokens .start
  have hmore : ofText (pre ++ (line ++ post)) = _ := hlong.tokens .start
  refine ⟨Stretch.tokens .start ss, Stretch.tokens (Position.start.advance pre) us ++
    [⟨.eof, [], Position.start.advance (pre ++ post)⟩], ?_, ?_⟩
  · rw [htokens, Stretch.tokens_append, hss.join, List.append_assoc]
  · have hjoin : Stretch.join [.comment line] = line := by simp [Stretch.text]
    have hnone : Stretch.tokens (Position.start.advance pre) [.comment line] = [] := rfl
    rw [List.append_assoc, hmore, Stretch.tokens_append, Stretch.tokens_append, Stretch.join_append,
      hss.join, hjoin, hnone, List.append_nil, Position.advance_append, hplace, Stretch.tokens_down,
      Position.advance_append, Position.advance_append, Position.advance_append, hplace,
      Position.advance_down, List.map_append, List.append_assoc]
    rfl

end Token

/-- A comment line makes no difference. Between lines of a script, outside the bodies of references,
it changes neither the form of the script nor what is reported of it, but for the places of the
reports. -/
theorem comment_line_invisible {pre line post : Text} (hpre : pre = [] ∨ Text.endsLine pre = true)
    (hcut : ¬Token.InBody (Token.before (.after pre) (Token.ofText (pre ++ post))))
    (hline : Text.IsCommentLine line) :
    (Compiled.ofText (pre ++ line ++ post) none).form = (Compiled.ofText (pre ++ post) none).form ∧
      (Compiled.ofText (pre ++ line ++ post) none).diagnostics.map Diagnostic.unplaced =
        (Compiled.ofText (pre ++ post) none).diagnostics.map Diagnostic.unplaced := by
  obtain ⟨ts, us, hplain, hcomment⟩ := Token.exists_ofText_comment hpre hcut hline
  refine Compiled.congr_of_unplaced ?_ none
  rw [hplain, hcomment]
  simp [Token.unplaced, Token.down]

/-- A comment with a quote, a keyword and a reference makes no difference in the text that is
recovered from an open body. -/
theorem comment_line_invisible_recovered :
    (Compiled.ofText ("TASK: t\n@x\x7b a\n".toList ++ "  # END \"@y\n".toList ++
        "b\n@z\n".toList) none).form =
      (Compiled.ofText ("TASK: t\n@x\x7b a\n".toList ++ "b\n@z\n".toList) none).form ∧
    (Compiled.ofText ("TASK: t\n@x\x7b a\n".toList ++ "  # END \"@y\n".toList ++
        "b\n@z\n".toList) none).diagnostics.map Diagnostic.unplaced =
      (Compiled.ofText ("TASK: t\n@x\x7b a\n".toList ++
        "b\n@z\n".toList) none).diagnostics.map Diagnostic.unplaced :=
  have hline : Text.IsCommentLine "  # END \"@y\n".toList :=
    ⟨"  ".toList, " END \"@y".toList, by decide, by decide, by decide, by decide, by decide⟩
  comment_line_invisible (Or.inr (by decide +kernel)) (by decide +kernel) hline

end PromptScript
