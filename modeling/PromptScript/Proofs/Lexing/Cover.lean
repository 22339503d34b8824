import PromptScript.Proofs.Lexing.Reading

/-!
# Phrases cover a script

A phrase takes at least one character and leaves the rest untouched, and every text begins with
one. So a script is phrases in a row, and its tokens are theirs and one for the end.
-/

namespace PromptScript.Lexer

open Piece (scan isHorizontal join)

/-- Taking white space leaves the pieces after it. -/
theorem splitSpace_append_eq (ps : List Piece) :
    ∃ taken, ps = taken ++ (splitSpace ps).2 ∧ join taken = (splitSpace ps).1 := by
  cases ps with
  | nil => exact ⟨[], rfl, rfl⟩
  | cons p rest =>
    rw [splitSpace]
    split
    · exact ⟨[p], rfl, by simp⟩
    · exact ⟨[], rfl, rfl⟩

/-- A header takes pieces from the front. -/
theorem header?_append_eq {ps after : List Piece} {text : Text} (h : header? ps = some (text, after)) :
    ∃ taken, ps = taken ++ after ∧ join taken = text := by
  cases ps with
  | nil => cases h
  | cons p rest =>
    obtain ⟨space, hspace, hjoin⟩ := splitSpace_append_eq rest
    rw [header?] at h
    split at h
    · split at h
      · rename_i lead colon tail hsplit
        rw [hsplit] at hspace hjoin
        split at h
        · cases h
          refine ⟨p :: space ++ [colon], ?_, ?_⟩
          · rw [hspace]
            simp
          · simp [hjoin]
        · cases h
      · cases h
    · cases h

/-- A statement keyword takes pieces from the front. -/
theorem statement?_append_eq {ps after : List Piece} {text : Text}
    (h : statement? ps = some (text, after)) : ∃ taken, ps = taken ++ after ∧ join taken = text := by
  unfold statement? at h
  split at h
  · cases h
  · rename_i p rest
    split at h
    · cases h
      exact ⟨[p], rfl, by simp⟩
    · split at h
      · rename_i space q tail _
        split at h
        · cases h
          exact ⟨[p, space, q], rfl, by simp⟩
        · cases h
      · cases h

/-- A fragment of text takes pieces from the front. -/
theorem splitText_append_eq (before : Option Char) (ps : List Piece) :
    ∃ taken, ps = taken ++ (splitText before ps).2 ∧ join taken = (splitText before ps).1 := by
  fun_induction splitText before ps with
  | case1 => exact ⟨[], rfl, rfl⟩
  | case2 => exact ⟨[], rfl, rfl⟩
  | case3 before p rest => exact ⟨[p], rfl, by simp⟩
  | case4 before p rest _ _ ih =>
    obtain ⟨taken, hrest, hjoin⟩ := ih
    exact ⟨p :: taken, by rw [List.cons_append, ← hrest], by rw [Piece.join_cons, hjoin]⟩

/-- A fragment of text runs to the end of its line, to a reference or to the end of the script. -/
theorem splitText_stops (before : Option Char) (ps : List Piece)
    (hsound : ∀ p ∈ ps, p.Sound) :
    Text.endsLine (splitText before ps).1 = true ∨ (splitText before ps).2 = [] ∨
      startsReference ((splitText before ps).1.getLast?.or before) (splitText before ps).2 = true := by
  fun_induction splitText before ps with
  | case1 => exact Or.inr (Or.inl rfl)
  | case2 before p rest hstart => exact Or.inr (Or.inr hstart)
  | case3 before p rest _ hkind =>
    rw [(hsound p List.mem_cons_self).eq_newline hkind]
    exact Or.inl rfl
  | case4 before p rest _ _ ih =>
    have hne := (hsound p List.mem_cons_self).ne_nil
    rcases ih fun q hq => hsound q (List.mem_cons_of_mem p hq) with h | h | h
    · left
      unfold Text.endsLine at h ⊢
      rw [List.getLast?_append]
      simp only [beq_iff_eq] at h
      simp [h]
    · exact Or.inr (Or.inl h)
    · right; right
      rw [List.getLast?_append, Option.or_assoc]
      obtain ⟨c, hc⟩ := Option.ne_none_iff_exists'.mp (mt List.getLast?_eq_none_iff.mp hne)
      rwa [hc] at h ⊢

/-- A reference begins with an at sign. -/
theorem exists_at_of_startsReference {before : Option Char} {ps : List Piece}
    (h : startsReference before ps = true) : ∃ p rest, ps = p :: rest ∧ p.kind = .at := by
  cases ps with
  | nil => cases h
  | cons p rest =>
    rw [startsReference] at h
    refine ⟨p, rest, rfl, ?_⟩
    simpa using (Bool.and_eq_true_iff.mp (Bool.and_eq_true_iff.mp h).1).1

/-- What begins with a reference is no comment. -/
theorem not_startsComment_of_startsReference {before : Option Char} {ps : List Piece}
    (h : startsReference before ps = true) : startsComment ps = false := by
  obtain ⟨p, rest, rfl, hkind⟩ := exists_at_of_startsReference h
  simp [startsComment, splitSpace, hkind]

/-- What begins with a reference is no construct of line starts. -/
theorem not_leads_of_startsReference {before : Option Char} {ps : List Piece}
    (h : startsReference before ps = true) : header? ps = none ∧ statement? ps = none := by
  obtain ⟨p, rest, rfl, hkind⟩ := exists_at_of_startsReference h
  simp [header?, statement?, hkind, secondWord?]

/-- Pieces taken from the front of a scan leave a scan of the text after theirs. -/
theorem eq_append_of_taken {rest text : Text} {after : List Piece}
    (h : ∃ taken, scan rest = taken ++ after ∧ join taken = text) :
    rest = text ++ join after ∧ after = scan (join after) := by
  obtain ⟨taken, hscan, rfl⟩ := h
  exact Piece.eq_append_of_scan hscan

variable {lineStart ls : Bool} {before : Option Char} {rest after : Text} {ss : List Stretch}

/-- A body and the text after it make up the text. -/
theorem Body.join {depth : Nat} (h : Body depth rest ss after) :
    Stretch.join ss ++ after = rest := by
  induction h with
  | close => rfl
  | leave _ _ ih | enter _ ih =>
    rw [Stretch.join_cons, List.append_assoc, ih]
    rfl
  | @fragment depth rest text mid after ss _ hcut _ ih =>
    have hrest := Text.cutBody_join rest
    rw [hcut] at hrest
    rw [Stretch.join_cons, List.append_assoc, ih]
    exact hrest

/-- What follows a target and the text after it make up the text. -/
theorem Tail.join {body : Option Text} (h : Tail rest ss body after) :
    Stretch.join ss ++ after = rest := by
  cases h with
  | bare => rfl
  | unclosed => simp [Stretch.text]
  | braced _ hbody _ =>
    rw [← hbody.join]
    simp [Stretch.text]

/-- A quoted text and the text after it make up the text. -/
theorem cutQuote?_join {rest text mid : Text} (h : Text.cutQuote? rest = some (text, mid)) :
    text ++ mid = rest := by
  induction rest generalizing text with
  | nil => cases h
  | cons c rest ih =>
    rw [Text.cutQuote?] at h
    split at h
    · cases h
    · split at h
      · cases h
        rfl
      · obtain ⟨parts, hparts, heq⟩ := Option.map_eq_some_iff.mp h
        cases heq
        rw [List.cons_append, ih hparts]

/-- What follows a name and the text after it make up the text. -/
theorem Attachment.join {colon : Bool} {target body : Option Text}
    (h : Attachment colon rest ss target body after) :
    Stretch.join ss ++ after = rest := by
  cases h with
  | target hcut htail =>
    rw [← cutQuote?_join hcut, ← htail.join]
    simp [Stretch.text]
  | unclosed => rfl
  | plain _ htail => exact htail.join

/-- The stretches of a phrase and the text after it make up the text. -/
theorem Phrase.join (h : Phrase lineStart before rest ss ls after) :
    Stretch.join ss ++ after = rest := by
  cases h with
  | comment => simp [Stretch.text, Text.cutLine_join]
  | indent => simp [Stretch.text]
  | header h =>
    have hrest := (eq_append_of_taken (header?_append_eq h)).1
    simpa [Stretch.text] using hrest.symm
  | @statement before rest text mid h =>
    have hrest := (eq_append_of_taken (statement?_append_eq h)).1
    rw [Piece.join_scan] at hrest
    rw [hrest, Stretch.join_cons, Stretch.join_ofText, List.append_assoc, Text.cutLine_join]
    rfl
  | reference _ _ _ h =>
    rw [← h.join]
    simp [Stretch.text]
  | text _ _ _ h =>
    have hrest := (eq_append_of_taken (splitText_append_eq before (scan rest))).1
    rw [h] at hrest
    simpa [Stretch.text] using hrest.symm

/-- Pieces taken from the front of a scan, if there are any, have characters. -/
theorem ne_nil_of_taken {text : Text} {qs : List Piece}
    (h : ∃ taken, scan rest = taken ++ qs ∧ Piece.join taken = text)
    (hlt : qs.length < (scan rest).length) : text ≠ [] := by
  obtain ⟨taken, hscan, rfl⟩ := h
  cases taken with
  | nil =>
    rw [hscan] at hlt
    exact absurd hlt (Nat.lt_irrefl _)
  | cons p taken =>
    have hp : p.Sound := Piece.sound_of_mem_scan (by rw [hscan]; exact List.mem_cons_self)
    simp [hp.ne_nil]

/-- A phrase has characters. -/
theorem Phrase.join_ne_nil (h : Phrase lineStart before rest ss ls after) :
    Stretch.join ss ≠ [] := by
  cases h with
  | comment h =>
    have hne : rest ≠ [] := by
      rintro rfl
      exact ne_nil_of_startsComment h Piece.scan_nil
    cases rest with
    | nil => exact absurd rfl hne
    | cons c rest =>
      rw [Text.cutLine]
      split <;> simp [Stretch.text]
  | indent hne => simpa [Stretch.text] using hne
  | header h =>
    simpa [Stretch.text] using ne_nil_of_taken (header?_append_eq h) (length_header?_lt h)
  | statement h =>
    simp [Stretch.text, ne_nil_of_taken (statement?_append_eq h) (length_statement?_lt h)]
  | reference => simp [Stretch.text]
  | text hne _ hstart h =>
    have htaken := splitText_append_eq before (scan rest)
    have hlt : (splitText before (scan rest)).2.length < (scan rest).length := by
      cases rest with
      | nil => exact absurd rfl hne
      | cons c rest =>
        rw [Piece.scan_cons] at hstart ⊢
        rw [splitText, if_neg (by simp [hstart])]
        split
        · simp
        · exact Nat.lt_succ_of_le (length_splitText_le _ _)
    rw [h] at htaken hlt
    simpa [Stretch.text] using ne_nil_of_taken htaken hlt

/-- A phrase leaves less text. -/
theorem Phrase.length_lt (h : Phrase lineStart before rest ss ls after) :
    after.length < rest.length := by
  have hjoin := congrArg List.length h.join
  have hpos := List.length_pos_iff.mpr h.join_ne_nil
  rw [List.length_append] at hjoin
  omega

/-- Something follows every target, be it nothing. -/
theorem exists_tail (rest : Text) : ∃ ss body after, Tail rest ss body after := by
  by_cases hbrace : (rest.dropWhile isHorizontal).head? = some '{'
  · have hspace : (rest.takeWhile isHorizontal).all isHorizontal = true := List.all_takeWhile
    have hrest := rest.takeWhile_append_dropWhile (p := isHorizontal)
    cases hlead : rest.dropWhile isHorizontal with
    | nil =>
      rw [hlead] at hbrace
      cases hbrace
    | cons c lead =>
      rw [hlead] at hbrace hrest
      cases hbrace
      rw [← hrest]
      cases hclose : Text.cutClosing? 1 lead with
      | none => exact ⟨_, _, _, .unclosed hspace hclose⟩
      | some parts =>
        obtain ⟨ss, hbody⟩ := exists_body hclose
        obtain ⟨inner, -, hinner⟩ := hbody.cut
        exact ⟨_, _, _, .braced hspace hbody hinner⟩
  · exact ⟨_, _, _, .bare hbrace⟩

/-- Something follows every name, be it nothing. -/
theorem exists_attachment (colon : Bool) (rest : Text) :
    ∃ ss target body after, Attachment colon rest ss target body after := by
  by_cases hquote : colon = true ∧ rest.head? = some '"'
  · obtain ⟨rfl, hhead⟩ := hquote
    cases rest with
    | nil => cases hhead
    | cons c rest =>
      cases hhead
      cases hcut : Text.cutQuote? rest with
      | none => exact ⟨_, _, _, _, .unclosed hcut⟩
      | some parts =>
        obtain ⟨ss, body, after, htail⟩ := exists_tail parts.2
        exact ⟨_, _, _, _, .target hcut htail⟩
  · obtain ⟨ss, body, after, htail⟩ := exists_tail rest
    exact ⟨ss, none, body, after, .plain (fun hcolon hhead => hquote ⟨hcolon, hhead⟩) htail⟩

/-- Where a reference begins there is a phrase of a reference. -/
theorem exists_reference (lineStart : Bool) (h : startsReference before (scan rest) = true) :
    ∃ ss after, Phrase lineStart before rest (.token .referenceStart ['@'] :: ss) false after := by
  cases rest with
  | nil => simp [startsReference] at h
  | cons c rest =>
    have hkind : (Piece.first c rest).1.kind = .at := by
      obtain ⟨p, ps, hscan, hkind⟩ := exists_at_of_startsReference h
      rw [Piece.scan_cons] at hscan
      rwa [(List.cons.inj hscan).1]
    obtain ⟨name, hpiece, -⟩ := (Piece.sound_first c rest).eq_at hkind
    have hc : c = '@' := by
      have hjoin := Piece.first_append c rest
      rw [hpiece] at hjoin
      exact (List.cons.inj hjoin).1.symm
    subst hc
    have hname : (rest.takeWhile Text.isName).all Text.isName = true := List.all_takeWhile
    have hstops := Piece.stops_dropWhile Text.isName rest
    have hrest := rest.takeWhile_append_dropWhile (p := Text.isName)
    obtain ⟨ss, target, body, after, hattached⟩ := exists_attachment
      (('@' :: rest.takeWhile Text.isName).getLast? == some ':') (rest.dropWhile Text.isName)
    rw [← hrest] at h ⊢
    exact ⟨_, _, .reference hname hstops h hattached⟩

/-- Where a line opens with something else than text there is a phrase of it. -/
theorem exists_opening (before : Option Char) (h : opensLine (scan rest) = true) :
    ∃ ss ls after, Phrase true before rest ss ls after := by
  by_cases hcomment : startsComment (scan rest) = true
  · exact ⟨_, _, _, .comment hcomment⟩
  · have hspace : (rest.takeWhile isHorizontal).all isHorizontal = true := List.all_takeWhile
    have hrest := rest.takeWhile_append_dropWhile (p := isHorizontal)
    simp only [opensLine, hcomment, splitSpace_scan, Bool.or_eq_true, Bool.and_eq_true] at h
    by_cases hne : rest.takeWhile isHorizontal = []
    · rw [hne, List.nil_append] at hrest
      rw [hne, hrest] at h
      cases hheader : header? (scan rest) with
      | some parts =>
        obtain ⟨text, qs⟩ := parts
        have hafter := (eq_append_of_taken (header?_append_eq hheader)).2
        rw [hafter] at hheader
        exact ⟨_, _, _, .header hheader⟩
      | none =>
        cases hstatement : statement? (scan rest) with
        | some parts =>
          obtain ⟨text, qs⟩ := parts
          have hafter := (eq_append_of_taken (statement?_append_eq hstatement)).2
          rw [hafter] at hstatement
          exact ⟨_, _, _, .statement hstatement⟩
        | none => simp [hheader, hstatement] at h
    · have hleads : Leads (rest.takeWhile isHorizontal).getLast?
          (scan (rest.dropWhile isHorizontal)) := by
        rcases h with ((h | h) | h) | h
        · cases h
        · exact Or.inl h
        · exact Or.inr (Or.inl h)
        · exact Or.inr (Or.inr h.2)
      rw [← hrest]
      exact ⟨_, _, _, .indent hne hspace hleads⟩

/-- Every text but the empty one begins with a phrase. -/
theorem exists_phrase (lineStart : Bool) (before : Option Char) (hne : rest ≠ []) :
    ∃ ss ls after, Phrase lineStart before rest ss ls after := by
  by_cases hstart : startsReference before (scan rest) = true
  · obtain ⟨ss, after, h⟩ := exists_reference lineStart hstart
    exact ⟨_, false, after, h⟩
  · rw [Bool.not_eq_true] at hstart
    by_cases hopens : lineStart = true ∧ opensLine (scan rest) = true
    · obtain ⟨rfl, hopens⟩ := hopens
      exact exists_opening before hopens
    · have hline : lineStart = true → opensLine (scan rest) = false := fun hline =>
        Bool.eq_false_iff.mpr fun h => hopens ⟨hline, h⟩
      have htaken := splitText_append_eq before (scan rest)
      have hafter := (eq_append_of_taken htaken).2
      exact ⟨_, _, _, .text hne hline hstart (Prod.ext rfl hafter)⟩

/-- Phrases in a row that make up a text: their stretches. -/
inductive Phrases : Bool → Option Char → Text → List Stretch → Prop
  | nil {lineStart : Bool} {before : Option Char} : Phrases lineStart before [] []
  | cons {lineStart ls : Bool} {before : Option Char} {rest after : Text} {ss ts : List Stretch}
      (h : Phrase lineStart before rest ss ls after)
      (hrest : Phrases ls ((Stretch.join ss).getLast?.or before) after ts) :
      Phrases lineStart before rest (ss ++ ts)

/-- Every text is phrases in a row. -/
theorem exists_phrases (lineStart : Bool) (before : Option Char) (rest : Text) :
    ∃ ss, Phrases lineStart before rest ss := by
  induction hn : rest.length using Nat.strongRecOn generalizing lineStart before rest with
  | _ n ih =>
    by_cases hne : rest = []
    · subst hne
      exact ⟨[], .nil⟩
    · obtain ⟨ss, ls, after, h⟩ := exists_phrase lineStart before hne
      have hlt := h.length_lt
      obtain ⟨ts, hts⟩ := ih after.length (by omega) ls ((Stretch.join ss).getLast?.or before) after rfl
      exact ⟨ss ++ ts, .cons h hts⟩

namespace Phrases

/-- The stretches of phrases in a row make up the text. -/
theorem join (h : Phrases lineStart before rest ss) : Stretch.join ss = rest := by
  induction h with
  | nil => rfl
  | cons h _ ih => rw [Stretch.join_append, ih, h.join]

/-- The tokens of a text are those of its phrases and one for the end. -/
theorem tokens (h : Phrases lineStart before rest ss) (p : Position) :
    (ahead .text lineStart before p rest).tokens =
      Stretch.tokens p ss ++ [⟨.eof, [], p.advance rest⟩] := by
  induction h generalizing p with
  | nil => exact tokens_ahead_nil
  | cons h hrest ih =>
    have hreads : Reads _ _ _ _ := h.reads (p := p)
    rw [hreads, ← h.join, Stretch.tokens_append, Position.advance_append, List.append_assoc]
    exact congrArg _ (ih _)

end Phrases

end PromptScript.Lexer
