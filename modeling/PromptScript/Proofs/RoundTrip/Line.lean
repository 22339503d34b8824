import PromptScript.Proofs.Lexing.Tiling
import PromptScript.Proofs.RoundTrip.Passage
import PromptScript.Proofs.RoundTrip.Settle

/-!
# Lines before written references

Where no reference begins, a line is one fragment of text, a comment, or a header or a statement
with the rest of the line after it. Only the first of these keeps all the ink of the line.
-/

namespace PromptScript

open Piece (scan isHorizontal lineBreak)

namespace Lexer

open FormReference (render)

variable {lineStart ls : Bool} {before : Option Char} {p : Position} {rest after : Text}
  {qs : List FormReference} {l u : Text}

/-- Stretches are read one after another. -/
theorem Reads.trans {m : Lexer} {ss ts : List Stretch} {mid : Text} (h : Reads m ss lineStart mid)
    (hnext : Reads (m.past (Stretch.join ss) lineStart mid) ts ls after) :
    Reads m (ss ++ ts) ls after := by
  have htokens := tokens_of_reads hnext
  rw [past_past] at htokens
  rw [Reads, tokens_of_reads h, htokens, Stretch.tokens_append, Stretch.join_append, List.append_assoc]
  rfl

/-- The stretches of a keyword and the rest of its line. -/
inductive Keyword : List Stretch → Prop
  | header {word line : Text} (hword : (SectionKind.ofHeader? word).isSome = true)
      (hink : 0 < (Text.ink word).length) (hends : Text.endsLine line = true) :
      Keyword [.token .sectionKeyword word, .token .text line]
  | statement {word line : Text} (hink : 0 < (Text.ink word).length) :
      Keyword [.token .statementKeyword word, .token .text line]

/-- The stretches of a line that is not just text. -/
inductive Odd : List Stretch → Prop
  | comment {line : Text} (hink : 0 < (Text.ink line).length) : Odd [.comment line]
  | keyword {indent : Text} {ss : List Stretch} (hindent : Text.isBlank indent = true)
      (h : Keyword ss) : Odd (Stretch.ofText .text indent ++ ss)

/-- A line break ends text in which no reference begins. -/
theorem exists_of_phrase_text {text : Text} (hqs : ∀ q ∈ qs, q.IsWellFormed)
    (hl : '\n' ∉ l) (hu : u = [] ∨ u.getLast? = some '\n')
    (hsplit : splitText before (scan (l ++ '\n' :: (u ++ qs.flatMap render))) = (text, scan after))
    (hjoin : text ++ after = l ++ '\n' :: (u ++ qs.flatMap render)) {ls : Bool} {p : Position}
    (hreferences : (ahead .text ls (text.getLast?.or before) p after).references = qs) :
    text = l ++ ['\n'] ∧ after = u ++ qs.flatMap render := by
  have hline : '\n' ∉ text.dropLast := by
    have htext := not_mem_dropLast_splitText before
      fun p (hp : p ∈ scan (l ++ '\n' :: (u ++ qs.flatMap render))) => Piece.sound_of_mem_scan hp
    rwa [hsplit] at htext
  have hcut : text ++ after = (l ++ ['\n']) ++ (u ++ qs.flatMap render) := by rw [hjoin]; simp
  obtain ⟨v, hv, rfl⟩ := Text.exists_of_append_eq hcut (by simp) hline
  by_cases hnil : v = []
  · subst hnil
    rw [List.append_nil] at hv
    exact ⟨hv.symm, rfl⟩
  · exfalso
    have hvlast : v.getLast? = some '\n' :=
      Text.getLast?_of_append (a := text) (by rw [← hv]; simp) hnil
    have hvulast : (v ++ u).getLast? = some '\n' := by
      rcases hu with rfl | hu
      · rwa [List.append_nil]
      · rw [List.getLast?_append, hu, Option.some_or]
    rw [← List.append_assoc] at hreferences
    have hno := not_startsReference_of_references hqs hvulast hreferences
    have hstops := splitText_stops before _
      fun p (hp : p ∈ scan (l ++ '\n' :: (u ++ qs.flatMap render))) => Piece.sound_of_mem_scan hp
    rw [hsplit] at hstops
    rcases hstops with hends | hempty | hstart
    · have hlast : text.getLast? = some '\n' := by simpa [Text.endsLine] using hends
      obtain ⟨w, rfl⟩ := List.getLast?_eq_some_iff.mp hlast
      obtain ⟨x, rfl⟩ := List.getLast?_eq_some_iff.mp hvlast
      rw [← List.append_assoc, List.append_left_inj] at hv
      rw [hv] at hl
      simp at hl
    · simp [Piece.scan_eq_nil_iff, hnil] at hempty
    · rw [← List.append_assoc, hno] at hstart
      cases hstart

/-- A line that is read as one fragment of text is inline. -/
theorem isInline_of_splitText (hl : '\n' ∉ l) (hb : IsFree before)
    (hsplit : (splitText before (scan (l ++ '\n' :: rest))).1 = l ++ ['\n']) :
    Text.isInline l = true := by
  by_cases hnil : (splitText none (scan l)).2 = []
  · exact List.isEmpty_iff.mpr hnil
  · rw [splitText_of_isFree hb, Piece.scan_append_newline,
      splitText_append_of_ne_nil hnil (kind_ne_newline hl)] at hsplit
    obtain ⟨taken, hscan, hjoin⟩ := splitText_append_eq none (scan l)
    have hall := congrArg Piece.join hscan
    rw [Piece.join_scan, Piece.join_append, hjoin, hsplit] at hall
    rw [hall] at hl
    simp at hl

/-- No text is white space. -/
theorem isBlank_nil : Text.isBlank [] = true := rfl

/-- Text that ends its line stays so with other lines after it. -/
theorem getLast?_line (hu : u = [] ∨ u.getLast? = some '\n') (l : Text) :
    (l ++ '\n' :: u).getLast? = some '\n' := by
  rcases hu with rfl | hu
  · simp
  · rw [List.append_cons, List.getLast?_append, hu, Option.some_or]

/-- Lines end in a line break, with other lines after them or none. -/
theorem getLast?_lines (hu : u = [] ∨ u.getLast? = some '\n') (ls : List Text) :
    Text.unlines ls ++ u = [] ∨ (Text.unlines ls ++ u).getLast? = some '\n' := by
  induction ls with
  | nil => exact hu
  | cons l ls ih =>
    rw [Text.unlines_cons, List.append_assoc, List.cons_append]
    exact Or.inr (getLast?_line ih l)

/-- A header has ink. -/
theorem length_ink_header? {text : Text} {ps : List Piece}
    (h : header? (scan rest) = some (text, ps)) : 0 < (Text.ink text).length := by
  obtain ⟨word, space, rfl, -, -⟩ := header?_eq_some h
  exact Text.length_ink_pos (c := ':') (by simp) (by decide)

/-- A statement keyword has ink. -/
theorem length_ink_statement? {text : Text} {ps : List Piece}
    (h : statement? (scan rest) = some (text, ps)) : 0 < (Text.ink text).length := by
  rcases statement?_shape (fun p hp => Piece.sound_of_mem_scan hp) h with hmem | ⟨space, -, -, htext⟩
  · have hone : ∀ word ∈ ["IF".toList, "ELSE".toList, "END".toList], 0 < (Text.ink word).length := by
      decide
    exact hone text hmem
  · rcases htext with rfl | rfl | rfl
    · exact Text.length_ink_pos (c := 'F') (by simp) (by decide)
    · exact Text.length_ink_pos (c := 'C') (by simp) (by decide)
    · exact Text.length_ink_pos (c := 'O') (by simp) (by decide)

/-- A comment has ink, if only its number sign. -/
theorem length_ink_comment (h : startsComment (scan rest) = true) :
    0 < (Text.ink (Text.cutLine rest).1).length := by
  have hhead := (isComment_cutLine h).1
  have hmem := (List.dropWhile_sublist _).subset (List.mem_of_mem_head? hhead)
  exact Text.length_ink_pos hmem (by decide)

variable (hqs : ∀ q ∈ qs, q.IsWellFormed) (hl : '\n' ∉ l) (hu : u = [] ∨ u.getLast? = some '\n')

include hqs hu in
/-- If the written references are all there are, none begins where a line does. -/
theorem not_startsReference_of_line
    (h : (ahead .text lineStart before p (l ++ '\n' :: (u ++ qs.flatMap render))).references = qs) :
    startsReference before (scan (l ++ '\n' :: (u ++ qs.flatMap render))) = false := by
  have hlines : l ++ '\n' :: (u ++ qs.flatMap render) = l ++ '\n' :: u ++ qs.flatMap render := by simp
  rw [hlines] at h ⊢
  exact not_startsReference_of_references hqs (getLast?_line hu l) h

include hqs hl hu

/-- Where text went before on the line, the rest of the line is one fragment of text. -/
theorem reads_restOfText
    (h : (ahead .text false before p (l ++ '\n' :: (u ++ qs.flatMap render))).references = qs) :
    Reads (ahead .text false before p (l ++ '\n' :: (u ++ qs.flatMap render)))
        [.token .text (l ++ ['\n'])] true (u ++ qs.flatMap render) ∧
      ((ahead .text false before p (l ++ '\n' :: (u ++ qs.flatMap render))).past (l ++ ['\n']) true
        (u ++ qs.flatMap render)).references = qs ∧ (IsFree before → Text.isInline l = true) := by
  have hno := not_startsReference_of_line hqs hu h
  have hne : l ++ '\n' :: (u ++ qs.flatMap render) ≠ [] := by simp
  obtain ⟨ss, ls, after, hphrase⟩ := exists_phrase false before hne
  obtain ⟨-, hreferences⟩ := hphrase.of_not_startsReference hno
  have hjoin := hphrase.join
  have hreads := hphrase.reads (p := p)
  rw [hreferences p] at h
  generalize hrest : l ++ '\n' :: (u ++ qs.flatMap render) = rest at *
  cases hphrase with
  | reference _ _ hstart =>
    rw [hstart] at hno
    cases hno
  | @text _ _ _ text _ _ _ _ hsplit =>
    simp only [Stretch.join_cons, Stretch.join_nil, Stretch.text, List.append_nil] at hjoin h
    subst hrest
    obtain ⟨rfl, rfl⟩ := exists_of_phrase_text hqs hl hu hsplit hjoin h
    have hends : Text.endsLine (l ++ ['\n']) = true := by simp [Text.endsLine]
    rw [hends] at hreads h
    exact ⟨hreads, h, fun hb => isInline_of_splitText hl hb (congrArg Prod.fst hsplit)⟩

/-- A header or a statement has the rest of its line after it. -/
theorem exists_keyword
    (hleads : (header? (scan (l ++ '\n' :: (u ++ qs.flatMap render)))).isSome = true ∨
      (statement? (scan (l ++ '\n' :: (u ++ qs.flatMap render)))).isSome = true)
    (h : (ahead .text true before p (l ++ '\n' :: (u ++ qs.flatMap render))).references = qs) :
    ∃ ss, Keyword ss ∧ Stretch.join ss = l ++ ['\n'] ∧
      Reads (ahead .text true before p (l ++ '\n' :: (u ++ qs.flatMap render))) ss true
        (u ++ qs.flatMap render) ∧
      ((ahead .text true before p (l ++ '\n' :: (u ++ qs.flatMap render))).past (l ++ ['\n']) true
        (u ++ qs.flatMap render)).references = qs := by
  rcases hleads with hheader | hstatement
  · obtain ⟨⟨text, ps⟩, hheader⟩ := Option.isSome_iff_exists.mp hheader
    obtain ⟨hjoin, hscan⟩ := eq_append_of_taken (header?_append_eq hheader)
    have hknown := ofHeader?_of_header? hheader
    have hink := length_ink_header? hheader
    obtain ⟨m, hm, hmline, hmid⟩ := Text.exists_of_line hjoin.symm hl (not_mem_of_header? hheader)
    rw [hscan, hmid] at hheader
    have hreads : Reads (ahead .text true before p _) _ _ _ := reads_header hheader
    rw [references_header hreads hknown] at h
    obtain ⟨hmore, hreferences, -⟩ := reads_restOfText hqs hmline hu h
    have htext : Stretch.join [.token .sectionKeyword text] = text := by simp [Stretch.text]
    have hends : Text.endsLine (m ++ ['\n']) = true := by simp [Text.endsLine]
    refine ⟨_, .header hknown hink hends, by simp [Stretch.text, hm],
      hreads.trans (by rw [htext]; exact hmore), ?_⟩
    have hpast := past_past (ahead .text true before p (l ++ '\n' :: (u ++ qs.flatMap render))) text
      (m ++ ['\n']) false true (m ++ '\n' :: (u ++ qs.flatMap render)) (u ++ qs.flatMap render)
    rw [← List.append_assoc, ← hm] at hpast
    rw [← hpast]
    exact hreferences
  · obtain ⟨⟨text, ps⟩, hstatement⟩ := Option.isSome_iff_exists.mp hstatement
    obtain ⟨hjoin, hscan⟩ := eq_append_of_taken (statement?_append_eq hstatement)
    have hink := length_ink_statement? hstatement
    obtain ⟨m, hm, hmline, hmid⟩ := Text.exists_of_line hjoin.symm hl (not_mem_of_statement? hstatement)
    rw [hscan, hmid] at hstatement
    have hline : Text.cutLine (m ++ '\n' :: (u ++ qs.flatMap render)) =
        (m ++ ['\n'], u ++ qs.flatMap render) := by
      rw [Text.cutLine_append hmline, Text.cutLine, if_pos rfl]
    have hreads : Reads (ahead .text true before p _) _ _ _ := reads_statement hstatement
    rw [hline] at hreads
    rw [references_statement hreads (by simp), ← List.append_assoc, ← hm] at h
    have hone : Stretch.ofText .text (m ++ ['\n']) = [.token .text (m ++ ['\n'])] := by
      simp [Stretch.ofText]
    rw [hone] at hreads
    exact ⟨_, .statement hink, by simp [Stretch.text, hm], hreads, h⟩

/-- A header or a statement after white space is odd together with it. -/
theorem exists_indented {space : Text} (hne : space ≠ []) (hspace : space.all isHorizontal = true)
    (hleads : Leads space.getLast? (scan (l ++ '\n' :: (u ++ qs.flatMap render))))
    (hreads : Reads (ahead .text true before p (space ++ (l ++ '\n' :: (u ++ qs.flatMap render))))
      [.token .text space] true (l ++ '\n' :: (u ++ qs.flatMap render)))
    (h : (ahead .text true before p
      (space ++ (l ++ '\n' :: (u ++ qs.flatMap render)))).references = qs) :
    ∃ ss, Odd ss ∧ Stretch.join ss = space ++ l ++ ['\n'] ∧
      Reads (ahead .text true before p (space ++ (l ++ '\n' :: (u ++ qs.flatMap render)))) ss true
        (u ++ qs.flatMap render) ∧
      ((ahead .text true before p (space ++ (l ++ '\n' :: (u ++ qs.flatMap render)))).past
        (space ++ l ++ ['\n']) true (u ++ qs.flatMap render)).references = qs := by
  rw [references_text hreads] at h
  have hlast : space.getLast?.or before = space.getLast? := by
    cases hlast : space.getLast? with
    | none => exact absurd (List.getLast?_eq_none_iff.mp hlast) hne
    | some c => rfl
  have hkeywords : (header? (scan (l ++ '\n' :: (u ++ qs.flatMap render)))).isSome = true ∨
      (statement? (scan (l ++ '\n' :: (u ++ qs.flatMap render)))).isSome = true := by
    rcases hleads with hheader | hstatement | hstart
    · exact Or.inl hheader
    · exact Or.inr hstatement
    · simp only [past, before_ahead, hlast] at h
      rw [not_startsReference_of_line hqs hu h] at hstart
      cases hstart
  obtain ⟨ss, hkeyword, hss, hmore, hreferences⟩ := exists_keyword hqs hl hu hkeywords h
  have hindent : Stretch.ofText .text space = [.token .text space] := by
    simp [Stretch.ofText, hne]
  have htext : Stretch.join [.token .text space] = space := by simp [Stretch.text]
  refine ⟨_, .keyword (Piece.isBlank_of_isHorizontal hspace) hkeyword, ?_, ?_, ?_⟩
  · rw [Stretch.join_append, Stretch.join_ofText, hss, List.append_assoc]
  · rw [hindent]
    exact hreads.trans (by rw [htext]; exact hmore)
  · have hpast := past_past (ahead .text true before p (space ++ (l ++ '\n' ::
      (u ++ qs.flatMap render)))) space (l ++ ['\n']) true true
        (l ++ '\n' :: (u ++ qs.flatMap render)) (u ++ qs.flatMap render)
    rw [List.append_assoc space l ['\n'], ← hpast]
    exact hreferences

/-- A line where no reference begins is one fragment of text, or else it is odd. -/
theorem exists_line (hb : IsFree before)
    (h : (ahead .text lineStart before p (l ++ '\n' :: (u ++ qs.flatMap render))).references = qs) :
    ∃ ss, (ss = [.token .text (l ++ ['\n'])] ∧ Text.readsAsText lineStart [l] = true ∨
        lineStart = true ∧ Odd ss) ∧
      Stretch.join ss = l ++ ['\n'] ∧
      Reads (ahead .text lineStart before p (l ++ '\n' :: (u ++ qs.flatMap render))) ss true
        (u ++ qs.flatMap render) ∧
      ((ahead .text lineStart before p (l ++ '\n' :: (u ++ qs.flatMap render))).past (l ++ ['\n']) true
        (u ++ qs.flatMap render)).references = qs := by
  cases lineStart with
  | false =>
    obtain ⟨hreads, hreferences, hinline⟩ := reads_restOfText hqs hl hu h
    refine ⟨_, Or.inl ⟨rfl, ?_⟩, by simp [Stretch.text], hreads, hreferences⟩
    simp [Text.readsAsText, hinline hb]
  | true =>
    have hno := not_startsReference_of_line hqs hu h
    have hcut : Text.cutLine (l ++ '\n' :: (u ++ qs.flatMap render)) =
        (l ++ ['\n'], u ++ qs.flatMap render) := by
      rw [Text.cutLine_append hl, Text.cutLine, if_pos rfl]
    have hall : l ++ '\n' :: (u ++ qs.flatMap render) ≠ [] := by simp
    obtain ⟨ss, ls, after, hphrase⟩ := exists_phrase true before hall
    have hreads := hphrase.reads (p := p)
    have hjoin := hphrase.join
    generalize hrest : l ++ '\n' :: (u ++ qs.flatMap render) = rest at *
    cases hphrase with
    | comment hcomment =>
      have hink := length_ink_comment hcomment
      rw [hcut] at hreads hink
      rw [references_comment hreads] at h
      exact ⟨_, Or.inr ⟨rfl, .comment hink⟩, by simp [Stretch.text], hreads, h⟩
    | indent hne hspace hleads =>
      have hline := Piece.not_mem_newline_of_isHorizontal hspace
      obtain ⟨m, rfl, hm, rfl⟩ := Text.exists_of_line hrest.symm hl hline
      obtain ⟨ss, hodd, hss⟩ := exists_indented hqs hm hu hne hspace hleads hreads h
      exact ⟨ss, Or.inr ⟨rfl, hodd⟩, hss⟩
    | header hheader =>
      subst hrest
      obtain ⟨ss, hkeyword, hss⟩ := exists_keyword hqs hl hu (Or.inl (by rw [hheader]; rfl)) h
      exact ⟨_, Or.inr ⟨rfl, .keyword isBlank_nil hkeyword⟩, hss⟩
    | statement hstatement =>
      subst hrest
      obtain ⟨ss, hkeyword, hss⟩ := exists_keyword hqs hl hu (Or.inr (by rw [hstatement]; rfl)) h
      exact ⟨_, Or.inr ⟨rfl, .keyword isBlank_nil hkeyword⟩, hss⟩
    | reference _ _ hstart =>
      rw [hstart] at hno
      cases hno
    | @text _ _ _ text _ _ hopens _ hsplit =>
      rw [references_text hreads] at h
      subst hrest
      obtain ⟨rfl, rfl⟩ := exists_of_phrase_text hqs hl hu hsplit (by simpa [Stretch.text] using hjoin) h
      have hends : Text.endsLine (l ++ ['\n']) = true := by simp [Text.endsLine]
      rw [hends] at hreads h
      have hinline := isInline_of_splitText hl hb (congrArg Prod.fst hsplit)
      have hline := hopens rfl
      rw [Piece.scan_append_newline, opensLine_append] at hline
      have hplain : Text.isPlain l = true := isPlain_iff.mpr ⟨hline, hinline⟩
      refine ⟨_, Or.inl ⟨rfl, ?_⟩, by simp [Stretch.text], hreads, h⟩
      simp [Text.readsAsText, hplain]

end Lexer

end PromptScript
