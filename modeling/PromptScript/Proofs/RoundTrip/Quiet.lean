import PromptScript.Proofs.Parsing.References
import PromptScript.Proofs.Parsing.Texts
import PromptScript.Proofs.RoundTrip.Reference

/-!
# Phrases and references

A phrase gives a reference or none. One that gives none goes past no line break but at its end; one
that gives a reference does so only in a body that ends at its brace.
-/

namespace PromptScript

open Piece (scan isHorizontal)
open Lexer (ahead IsFree Phrase Attachment Tail)

namespace Text

variable {a b u v q : Text} {c : Char}

/-- Cutting a text in front of a character cuts one of two texts that make it up. -/
theorem append_cons_eq_append (h : a ++ c :: b = u ++ v) :
    (∃ m, u = a ++ c :: m ∧ b = m ++ v) ∨ ∃ m, a = u ++ m ∧ v = m ++ c :: b := by
  rcases List.append_eq_append_iff.mp h with ⟨m, hu, hb⟩ | ⟨m, ha, hv⟩
  · cases m with
    | nil => exact Or.inr ⟨[], by rw [hu, List.append_nil, List.append_nil], hb.symm⟩
    | cons d m =>
      obtain ⟨rfl, hrest⟩ := List.cons.inj hb
      exact Or.inl ⟨m, hu, hrest⟩
  · exact Or.inr ⟨m, ha, hv⟩

/-- The last character of two texts in a row is that of the second, unless that is empty. -/
theorem getLast?_of_append (h : (a ++ b).getLast? = some c) (hb : b ≠ []) : b.getLast? = some c := by
  rw [List.getLast?_append] at h
  cases hlast : b.getLast? with
  | none => exact absurd (List.getLast?_eq_none_iff.mp hlast) hb
  | some d => rwa [hlast, Option.some_or] at h

/-- A text that goes past no line break but at its end stays within lines in front. -/
theorem exists_of_append_eq (h : a ++ b = u ++ q) (hu : u.getLast? = some '\n')
    (ha : '\n' ∉ a.dropLast) : ∃ v, u = a ++ v ∧ b = v ++ q := by
  rcases List.append_eq_append_iff.mp h with ⟨m, hm, hb⟩ | ⟨m, hm, hq⟩
  · exact ⟨m, hm, hb⟩
  · cases m with
    | nil => exact ⟨[], by rw [hm, List.append_nil, List.append_nil], hq.symm⟩
    | cons d m =>
      have hne : d :: m ≠ [] := List.cons_ne_nil d m
      rw [hm, List.dropLast_append_of_ne_nil hne] at ha
      exact absurd (List.mem_append_left _ (List.mem_of_getLast? hu)) ha

/-- A text without line breaks in front of a line is in front within the line. -/
theorem exists_of_line (h : a ++ b = u ++ '\n' :: v) (hu : '\n' ∉ u) (ha : '\n' ∉ a) :
    ∃ m, u = a ++ m ∧ '\n' ∉ m ∧ b = m ++ '\n' :: v := by
  rcases append_cons_eq_append h.symm with ⟨m, rfl, -⟩ | ⟨m, rfl, hb⟩
  · simp at ha
  · exact ⟨m, rfl, fun hmem => hu (List.mem_append_right a hmem), hb⟩

/-- The trimming of the end stops at a character that is no white space. -/
theorem trimEnd_append_cons (hc : isSpace c = false) (s t : Text) :
    trimEnd (s ++ c :: t) = s ++ c :: trimEnd t := by
  rw [trimEnd, List.reverse_append, List.reverse_cons, List.append_assoc, List.singleton_append,
    Piece.dropWhile_append_cons hc, List.reverse_append, List.reverse_cons, List.reverse_reverse,
    trimEnd, List.append_assoc, List.singleton_append]

/-- Trimming goes no further than a character that is not white space. -/
theorem trim_append_cons (hc : isSpace c = false) (s t : Text) :
    trim (s ++ c :: t) = trimStart s ++ c :: trimEnd t := by
  rw [trim, trimStart, Piece.dropWhile_append_cons hc, trimEnd_append_cons hc, trimStart]

/-- Trimming the start leaves the last character, if it leaves any. -/
theorem getLast?_trimStart (h : trimStart a ≠ []) : (trimStart a).getLast? = a.getLast? := by
  obtain ⟨x, -, heq⟩ := exists_trimStart a
  cases hlast : (trimStart a).getLast? with
  | none => exact absurd (List.getLast?_eq_none_iff.mp hlast) h
  | some d => rw [heq, List.getLast?_append, hlast, Option.some_or]

end Text

/-- Cutting texts in a row in front of a character cuts one of them. -/
theorem exists_of_flatMap_eq_append_cons {α : Type} {f : α → Text} {xs : List α} {a b : Text}
    {c : Char} (h : a ++ c :: b = xs.flatMap f) :
    ∃ pre x post s t, xs = pre ++ x :: post ∧ f x = s ++ c :: t ∧ a = pre.flatMap f ++ s ∧
      b = t ++ post.flatMap f := by
  induction xs generalizing a with
  | nil => simp at h
  | cons x xs ih =>
    rw [List.flatMap_cons] at h
    rcases Text.append_cons_eq_append h with ⟨m, hx, hb⟩ | ⟨m, ha, hxs⟩
    · exact ⟨[], x, xs, a, m, rfl, hx, rfl, hb⟩
    · obtain ⟨pre, y, post, s, t, rfl, hy, rfl, hb⟩ := ih hxs.symm
      refine ⟨x :: pre, y, post, s, t, rfl, hy, ?_, hb⟩
      rw [ha, List.flatMap_cons, List.append_assoc]

/-- What comes before the rest of a body leaves a brace open. -/
theorem closesFrom_suffix {depth : Nat} {a b : Text} (hdepth : 1 ≤ depth)
    (h : closesFrom depth (a ++ b) = true) : ∃ d, 1 ≤ d ∧ closesFrom d b = true := by
  induction a generalizing depth with
  | nil => exact ⟨depth, hdepth, h⟩
  | cons c a ih =>
    rw [List.cons_append, closesFrom] at h
    split at h
    · exact ih (by omega) h
    · split at h
      · obtain ⟨hopen, h⟩ := Bool.and_eq_true_iff.mp h
        have := of_decide_eq_true hopen
        exact ih (by omega) h
      · exact ih hdepth h

/-- A text that closes all braces but one cannot close fewer and leave one open. -/
theorem eq_zero_of_closesFrom {depth more : Nat} {a b : Text} (hdepth : 1 ≤ depth)
    (h : closesFrom (depth + more) a = true) (hlong : closesFrom depth (a ++ b) = true) :
    more = 0 := by
  induction a generalizing depth with
  | nil =>
    have hone : depth + more = 1 := by simpa [closesFrom] using h
    omega
  | cons c a ih =>
    rw [closesFrom] at h
    rw [List.cons_append, closesFrom] at hlong
    split at h
    · rename_i hc
      rw [if_pos hc] at hlong
      exact ih (by omega) (by rwa [Nat.add_right_comm]) hlong
    · rename_i hc
      rw [if_neg hc] at hlong
      split at h
      · rename_i hr
        rw [if_pos hr] at hlong
        obtain ⟨-, h⟩ := Bool.and_eq_true_iff.mp h
        obtain ⟨hopen, hlong⟩ := Bool.and_eq_true_iff.mp hlong
        have hopen := of_decide_eq_true hopen
        have hsame : depth + more - 1 = depth - 1 + more := by omega
        rw [hsame] at h
        exact ih (by omega) h hlong
      · rename_i hr
        rw [if_neg hr] at hlong
        exact ih hdepth h hlong

namespace Lexer

variable {lineStart ls : Bool} {before : Option Char} {rest after : Text} {ss : List Stretch}

/-- What follows a target goes past a line break only in a body that ends at its brace. -/
theorem Tail.lines {body : Option Text} (h : Tail rest ss body after) :
    '\n' ∉ Stretch.join ss ∨ ∃ front inner, body = some inner ∧
      Stretch.join ss = front ++ '{' :: (inner ++ ['}']) ∧ '\n' ∉ front ∧
        closesFrom 1 inner = true := by
  cases h with
  | bare => exact Or.inl (by simp)
  | unclosed hspace => exact Or.inl (by simp [Stretch.text, Piece.not_mem_newline_of_isHorizontal hspace])
  | @braced space rest inner after ss hspace hbody hinner =>
    obtain ⟨found, hcut, hjoin⟩ := hbody.cut
    rw [hinner] at hjoin
    obtain rfl := List.append_cancel_right hjoin
    refine Or.inr ⟨space, inner, rfl, ?_, Piece.not_mem_newline_of_isHorizontal hspace, ?_⟩
    · simp [Stretch.text, hinner]
    · exact closesFrom_of_cutClosing? (Nat.le_refl 1) hcut

/-- What is attached to a name goes past a line break only in a body that ends at its brace. -/
theorem Attachment.lines {colon : Bool} {target body : Option Text}
    (h : Attachment colon rest ss target body after) :
    '\n' ∉ Stretch.join ss ∨ ∃ front inner, body = some inner ∧
      Stretch.join ss = front ++ '{' :: (inner ++ ['}']) ∧ '\n' ∉ front ∧
        closesFrom 1 inner = true := by
  cases h with
  | @target rest text mid after ss body hcut htail =>
    obtain ⟨q, rfl, -, hq⟩ := Text.cutQuote?_eq_some hcut
    have hquoted : '\n' ∉ '"' :: (q ++ ['"']) := by simp [hq]
    rcases htail.lines with hline | ⟨front, inner, rfl, hjoin, hfront, hcloses⟩
    · left
      rw [Stretch.join_cons, List.mem_append, not_or]
      exact ⟨hquoted, hline⟩
    · refine Or.inr ⟨'"' :: (q ++ ['"']) ++ front, inner, rfl, ?_, ?_, hcloses⟩
      · rw [Stretch.join_cons, hjoin, List.append_assoc]
        rfl
      · rw [List.mem_append, not_or]
        exact ⟨hquoted, hfront⟩
  | unclosed => exact Or.inl (by simp [Stretch.text])
  | plain _ htail => exact htail.lines

/-- A phrase where no reference begins goes past no line break but at its end, and the references
are those of the text after it. -/
theorem Phrase.of_not_startsReference (h : Phrase lineStart before rest ss ls after)
    (hstart : startsReference before (scan rest) = false) :
    '\n' ∉ (Stretch.join ss).dropLast ∧ ∀ p, (ahead .text lineStart before p rest).references =
      ((ahead .text lineStart before p rest).past (Stretch.join ss) ls after).references := by
  have hreads (p : Position) := h.reads (p := p)
  cases h with
  | comment =>
    refine ⟨by simpa [Stretch.text] using Text.not_mem_dropLast_cutLine rest, fun p => ?_⟩
    simpa [Stretch.text] using references_comment (hreads p)
  | @indent _ space _ _ hspace =>
    refine ⟨?_, fun p => by simpa [Stretch.text] using references_text (hreads p)⟩
    have hline := Piece.not_mem_newline_of_isHorizontal hspace
    simpa [Stretch.text] using fun hmem => hline (List.dropLast_subset _ hmem)
  | header hheader =>
    refine ⟨?_, fun p => ?_⟩
    · have hline := not_mem_of_header? hheader
      simpa [Stretch.text] using fun hmem => hline (List.dropLast_subset _ hmem)
    · simpa [Stretch.text] using references_header (hreads p) (ofHeader?_of_header? hheader)
  | @statement _ _ _ mid hstatement =>
    refine ⟨?_, fun p => ?_⟩
    · rw [Stretch.join_cons, Stretch.join_ofText]
      exact Text.not_mem_dropLast_append (not_mem_of_statement? hstatement)
        (Text.not_mem_dropLast_cutLine mid)
    · rw [Stretch.join_cons, Stretch.join_ofText]
      refine references_statement (hreads p) fun hnil => ?_
      have hjoin := Text.cutLine_join mid
      cases mid with
      | nil => rfl
      | cons c mid =>
        rw [Text.cutLine] at hnil
        split at hnil <;> cases hnil
  | reference _ _ hreference =>
    rw [hreference] at hstart
    cases hstart
  | @text _ _ rest text _ _ _ _ hsplit =>
    refine ⟨?_, fun p => by simpa [Stretch.text] using references_text (hreads p)⟩
    have htext := not_mem_dropLast_splitText before
      fun p (hp : p ∈ scan rest) => Piece.sound_of_mem_scan hp
    rw [hsplit] at htext
    simpa [Stretch.text] using htext

/-- A phrase where a reference begins gives a reference before those of the text after it. It goes
past a line break only in a body that ends at its brace and is that of the reference. -/
theorem Phrase.of_startsReference (h : Phrase lineStart before rest ss ls after)
    (hstart : startsReference before (scan rest) = true) (p : Position) :
    ls = false ∧ ∃ x : FormReference, (ahead .text lineStart before p rest).references =
        x :: ((ahead .text lineStart before p rest).past (Stretch.join ss) ls after).references ∧
      ('\n' ∉ Stretch.join ss ∨ ∃ front inner, x.body = Text.trim inner ∧
        Stretch.join ss = front ++ '{' :: (inner ++ ['}']) ∧ '\n' ∉ front ∧
          closesFrom 1 inner = true) := by
  have hreads := h.reads (p := p)
  cases h with
  | comment hcomment =>
    rw [not_startsComment_of_startsReference hstart] at hcomment
    cases hcomment
  | @indent _ space _ hne hspace =>
    obtain ⟨x, xs, hscan, hkind⟩ := exists_at_of_startsReference hstart
    have hsplit := splitSpace_scan (space ++ after)
    rw [hscan, splitSpace, if_neg (by simp [hkind])] at hsplit
    have htake : [] = (space ++ after).takeWhile isHorizontal := congrArg Prod.fst hsplit
    rw [List.takeWhile_append_of_pos (List.all_eq_true.mp hspace)] at htake
    exact absurd (List.append_eq_nil_iff.mp htake.symm).1 hne
  | header hheader =>
    rw [(not_leads_of_startsReference hstart).1] at hheader
    cases hheader
  | statement hstatement =>
    rw [(not_leads_of_startsReference hstart).2] at hstatement
    cases hstatement
  | @reference _ _ name rest after ss target body hname hrest _ hattached =>
    obtain ⟨tokens, -, hreferences⟩ := references_reference hattached hreads
    have hjoin : Stretch.join (.token .referenceStart ['@'] ::
        (Stretch.ofText .identifier name ++ ss)) = '@' :: name ++ Stretch.join ss := by
      simp [Stretch.text]
    have hline : '\n' ∉ '@' :: name := by
      intro hmem
      have hin : '\n' ∈ name := by simpa using hmem
      exact absurd (List.all_eq_true.mp hname _ hin) (by decide)
    rw [hjoin]
    refine ⟨rfl, _, hreferences, hattached.lines.imp (fun h => ?_) ?_⟩
    · rw [List.mem_append, not_or]
      exact ⟨hline, h⟩
    · rintro ⟨front, inner, rfl, hbody, hfront, hcloses⟩
      refine ⟨'@' :: name ++ front, inner, rfl, by rw [hbody, List.append_assoc], ?_, hcloses⟩
      rw [List.mem_append, not_or]
      exact ⟨hline, hfront⟩
  | text _ _ hno =>
    rw [hno] at hstart
    cases hstart

/-- A fragment of text goes no further than a place where a reference begins after it. -/
theorem splitText_append_of_startsReference {before : Option Char} {ps qs : List Piece}
    (hsound : ∀ p ∈ ps, p.Sound)
    (h : startsReference ((Piece.join ps).getLast?.or before) qs = true) :
    ∃ rest, Piece.join ps = (splitText before (ps ++ qs)).1 ++ rest := by
  induction ps generalizing before with
  | nil =>
    rw [Piece.join_nil, List.getLast?_nil, Option.none_or] at h
    cases qs with
    | nil => cases h
    | cons q qs =>
      rw [List.nil_append, splitText, if_pos h]
      exact ⟨[], rfl⟩
  | cons p ps ih =>
    rw [List.cons_append, splitText]
    split
    · exact ⟨_, rfl⟩
    · split
      · exact ⟨Piece.join ps, rfl⟩
      · have hne := (hsound p List.mem_cons_self).ne_nil
        have hlast : p.text.getLast?.or before = p.text.getLast? := by
          cases hlast : p.text.getLast? with
          | none => exact absurd (List.getLast?_eq_none_iff.mp hlast) hne
          | some c => rfl
        rw [Piece.join_cons, List.getLast?_append, Option.or_assoc, hlast] at h
        obtain ⟨rest, hrest⟩ := ih (fun q hq => hsound q (List.mem_cons_of_mem p hq)) h
        exact ⟨rest, by rw [Piece.join_cons, hrest, List.append_assoc]⟩

end Lexer

namespace FormReference

/-- A written reference ends its line. -/
theorem getLast?_render (r : FormReference) : r.render.getLast? = some '\n' := by
  rw [List.getLast?_eq_some_iff, render_eq]
  split
  · exact ⟨r.lead ++ '{' :: (' ' :: r.body ++ [' ', '}']), by simp⟩
  · exact ⟨r.lead ++ '{' :: (' ' :: r.body), by simp⟩

/-- A written reference has more ink than its body. -/
theorem length_ink_render (r : FormReference) :
    (Text.ink r.body).length + 2 ≤ (Text.ink r.render).length := by
  have hat (t : Text) : (Text.ink ('@' :: t)).length = 1 + (Text.ink t).length := by
    rw [Text.ink_cons, List.length_append]
    rfl
  have hbrace (t : Text) : (Text.ink ('{' :: t)).length = 1 + (Text.ink t).length := by
    rw [Text.ink_cons, List.length_append]
    rfl
  rw [render_eq, lead, List.cons_append, hat, Text.ink_append, List.length_append, hbrace,
    List.cons_append, Text.ink_cons ' ']
  simp only [Text.ink_append, List.length_append]
  omega

/-- A reference begins where one is written. -/
theorem IsWellFormed.startsReference_render {r : FormReference} (h : r.IsWellFormed)
    {before : Option Char} (hb : IsFree before) (rest : Text) :
    Lexer.startsReference before (scan (r.render ++ rest)) = true := by
  have hrender : r.render ++ rest = '@' :: (r.written ++ (r.quoted.getD [] ++ '{' :: (' ' :: r.body ++
      (if closesCleanly r.body then [' ', '}', '\n'] else ['\n']) ++ rest))) := by
    simp [render_eq, lead]
  rw [hrender]
  exact h.startsReference hb _

/-- A reference begins where its name is written and a target opened. -/
theorem IsWellFormed.startsReference_written {r : FormReference} (h : r.IsWellFormed)
    (hne : r.written ≠ []) {before : Option Char} (hb : IsFree before) (rest : Text) :
    Lexer.startsReference before (scan ('@' :: (r.written ++ '"' :: rest))) = true := by
  have hstops : Piece.stops Text.isName ('"' :: rest) = true := by
    simp [Piece.stops, show Text.isName '"' = false by decide]
  have hlength := List.length_pos_iff.mpr hne
  rw [Lexer.startsReference_of_isFree hb, Piece.scan_at h.written_isName hstops]
  simp [Lexer.startsReference, hlength]

/-- A brace in a written reference before its body stands in its target. -/
theorem IsWellFormed.target_of_lead {r : FormReference} (h : r.IsWellFormed) {s m : Text}
    (hlead : r.lead = s ++ '}' :: m) :
    ∃ x, s = '@' :: r.written ++ '"' :: x ∧ '\n' ∉ m ∧ r.written ≠ [] := by
  have hname : '}' ∉ '@' :: r.written := by
    intro hmem
    have hin : '}' ∈ r.written := by simpa using hmem
    exact absurd (List.all_eq_true.mp h.written_isName _ hin) (by decide)
  rw [lead, ← List.cons_append] at hlead
  rcases Text.append_cons_eq_append hlead.symm with ⟨x, hx, -⟩ | ⟨x, rfl, hquoted⟩
  · rw [hx] at hname
    exact absurd (by simp) hname
  · cases ht : r.target with
    | none => simp [quoted, ht] at hquoted
    | some target =>
      have hline : '\n' ∉ r.quoted.getD [] := by
        simp [quoted, ht, h.target_line target ht]
      have hwritten : r.written ≠ [] := by simp [written, ht]
      cases x with
      | nil => simp [quoted, ht] at hquoted
      | cons c x =>
        have hc : c = '"' := by
          simp only [quoted, ht, Option.map_some, Option.getD_some, List.cons_append] at hquoted
          exact (List.cons.inj hquoted).1.symm
        rw [hquoted] at hline
        simp only [List.mem_append, List.mem_cons, not_or] at hline
        exact ⟨x, by rw [hc], hline.2.2, hwritten⟩

end FormReference

end PromptScript
