import PromptScript.Proofs.Lexing.Cover

/-!
# Plain lines

A line is plain if it is one fragment of text where a line begins, and inline if it is one where
text went before. What comes after its line break makes no difference to either.
-/

namespace PromptScript

open Piece (scan isHorizontal lineBreak join)

namespace Text

/-- Whether a line is one fragment of text when something other than a word comes before it. -/
def isInline (line : Text) : Bool :=
  (Lexer.splitText none (scan line)).2.isEmpty

/-- Whether a line is empty or, as a script of its own, one fragment of text. -/
def isPlain (line : Text) : Bool :=
  line.isEmpty ||
    (Token.ofText line).map (fun t => (t.kind, t.text)) == [(.text, line), (.eof, [])]

end Text

namespace Lexer

/-- Whether a reference may begin after a character: it is not one of a word. -/
def IsFree (before : Option Char) : Prop :=
  before.any Text.joinsWord = false

/-- After a character that is no part of a word, a reference begins as it would at the start of a
script. -/
theorem startsReference_of_isFree {before : Option Char} (h : IsFree before) (ps : List Piece) :
    startsReference before ps = startsReference none ps := by
  cases ps with
  | nil => rfl
  | cons p rest =>
    have hb : before.any Text.joinsWord = false := h
    simp only [startsReference, hb, Option.any_none]

/-- What comes before text matters only for whether a reference may begin. -/
theorem splitText_of_isFree {before : Option Char} (h : IsFree before) (ps : List Piece) :
    splitText before ps = splitText none ps := by
  cases ps with
  | nil => rfl
  | cons p rest => simp only [splitText, startsReference_of_isFree h]

/-- Whether a reference begins depends only on the pieces before the next line break. -/
theorem startsReference_append (before : Option Char) {ps : List Piece} (hne : ps ≠ [])
    (qs : List Piece) :
    startsReference before (ps ++ lineBreak :: qs) = startsReference before ps := by
  cases ps with
  | nil => exact absurd rfl hne
  | cons p rest =>
    cases rest with
    | nil =>
      have hbreak : (Piece.Kind.newline == Piece.Kind.leftBrace) = false := by decide
      simp [startsReference, lineBreak, hbreak]
    | cons q rest => rfl

/-- A fragment of text that takes all of a line takes its line break too. -/
theorem splitText_append_of_nil {before : Option Char} {ps : List Piece}
    (h : (splitText before ps).2 = []) (hline : ∀ p ∈ ps, p.kind ≠ .newline) (qs : List Piece) :
    splitText before (ps ++ lineBreak :: qs) = (join ps ++ ['\n'], qs) := by
  fun_induction splitText before ps with
  | case1 => simp [splitText, startsReference, lineBreak]
  | case2 => cases h
  | case3 _ p rest _ hkind => exact absurd hkind (hline p List.mem_cons_self)
  | case4 before p rest hstart hkind ih =>
    have hsame := startsReference_append before (List.cons_ne_nil p rest) qs
    rw [List.cons_append] at hsame ⊢
    rw [splitText, hsame, if_neg hstart, if_neg hkind,
      ih h fun q hq => hline q (List.mem_cons_of_mem p hq), Piece.join_cons, List.append_assoc]

/-- A fragment of text that ends before a reference on a line ends there whatever follows the
line. -/
theorem splitText_append_of_ne_nil {before : Option Char} {ps : List Piece}
    (h : (splitText before ps).2 ≠ []) (hline : ∀ p ∈ ps, p.kind ≠ .newline) (qs : List Piece) :
    splitText before (ps ++ lineBreak :: qs) =
      ((splitText before ps).1, (splitText before ps).2 ++ lineBreak :: qs) := by
  fun_induction splitText before ps with
  | case1 => exact absurd rfl h
  | case2 before p rest hstart =>
    have hsame := startsReference_append before (List.cons_ne_nil p rest) qs
    rw [List.cons_append] at hsame ⊢
    rw [splitText, hsame, if_pos hstart]
  | case3 _ p rest _ hkind => exact absurd hkind (hline p List.mem_cons_self)
  | case4 before p rest hstart hkind ih =>
    have hsame := startsReference_append before (List.cons_ne_nil p rest) qs
    rw [List.cons_append] at hsame ⊢
    rw [splitText, hsame, if_neg hstart, if_neg hkind,
      ih h fun q hq => hline q (List.mem_cons_of_mem p hq)]

/-- White space is looked for on the line alone, so what comes after the line break makes no
difference. -/
theorem splitSpace_append_lineBreak (ps qs : List Piece) :
    splitSpace (ps ++ lineBreak :: qs) = ((splitSpace ps).1, (splitSpace ps).2 ++ lineBreak :: qs) := by
  cases ps with
  | nil => rfl
  | cons p rest =>
    rw [List.cons_append, splitSpace, splitSpace]
    split <;> rfl

/-- Whether a header stands in front depends only on the pieces before the next line break. -/
theorem header?_append (ps qs : List Piece) :
    header? (ps ++ lineBreak :: qs) =
      (header? ps).map fun parts => (parts.1, parts.2 ++ lineBreak :: qs) := by
  cases ps with
  | nil => simp [header?, lineBreak]
  | cons p rest =>
    rw [List.cons_append, header?, header?, splitSpace_append_lineBreak]
    split
    · cases hsplit : splitSpace rest with
      | mk space tail =>
        cases tail with
        | nil => simp [lineBreak]
        | cons colon after =>
          simp only [List.cons_append]
          split <;> rfl
    · rfl

/-- Whether a statement stands in front depends only on the pieces before the next line break. -/
theorem statement?_append (ps qs : List Piece) :
    statement? (ps ++ lineBreak :: qs) =
      (statement? ps).map fun parts => (parts.1, parts.2 ++ lineBreak :: qs) := by
  cases ps with
  | nil => simp [statement?, lineBreak, secondWord?]
  | cons p rest =>
    obtain ⟨kind, text⟩ := p
    rcases rest with _ | ⟨space, _ | ⟨q, rest⟩⟩
    · cases qs <;> cases kind <;> simp [statement?, secondWord?, lineBreak]
    · cases kind <;> simp [statement?, secondWord?, lineBreak]
    · cases kind
      all_goals
        simp only [statement?, secondWord?, List.cons_append]
        split <;> simp_all

/-- Whether a comment begins depends only on the pieces before the next line break. -/
theorem startsComment_append (ps qs : List Piece) :
    startsComment (ps ++ lineBreak :: qs) = startsComment ps := by
  simp only [startsComment, splitSpace_append_lineBreak]
  cases (splitSpace ps).2 with
  | nil => rfl
  | cons p rest => rfl

/-- What opens a line is seen before its line break. -/
theorem opensLine_append (ps qs : List Piece) : opensLine (ps ++ lineBreak :: qs) = opensLine ps := by
  have hsplit := splitSpace_append_lineBreak ps qs
  have hreference : startsReference (splitSpace ps).1.getLast? ((splitSpace ps).2 ++ lineBreak :: qs) =
      startsReference (splitSpace ps).1.getLast? (splitSpace ps).2 := by
    by_cases hne : (splitSpace ps).2 = []
    · rw [hne]
      simp [startsReference, lineBreak]
    · exact startsReference_append _ hne qs
  simp only [opensLine, startsComment_append, hsplit, header?_append, statement?_append, hreference,
    Option.isSome_map]

/-- The pieces of a line without a line break hold none. -/
theorem kind_ne_newline {l : Text} (hl : '\n' ∉ l) : ∀ p ∈ scan l, p.kind ≠ .newline := by
  intro p hp hkind
  have htext := (Piece.sound_of_mem_scan hp).eq_newline hkind
  have hmem : '\n' ∈ join (scan l) :=
    List.mem_flatMap.mpr ⟨p, hp, by rw [htext]; exact List.mem_cons_self⟩
  rw [Piece.join_scan] at hmem
  exact hl hmem

variable {l : Text} {before : Option Char}

/-- An inline line and its line break are one fragment of text. -/
theorem splitText_of_isInline (h : Text.isInline l = true) (hl : '\n' ∉ l) (hb : IsFree before)
    (rest : Text) :
    splitText before (scan (l ++ '\n' :: rest)) = (l ++ ['\n'], scan rest) := by
  have hnil : (splitText none (scan l)).2 = [] := List.isEmpty_iff.mp h
  rw [splitText_of_isFree hb, Piece.scan_append_newline,
    splitText_append_of_nil hnil (kind_ne_newline hl), Piece.join_scan]

/-- No reference begins where a line is inline. -/
theorem not_startsReference_of_isInline (h : Text.isInline l = true) (hb : IsFree before)
    (rest : Text) : startsReference before (scan (l ++ '\n' :: rest)) = false := by
  have hnil : (splitText none (scan l)).2 = [] := List.isEmpty_iff.mp h
  rw [startsReference_of_isFree hb, Piece.scan_append_newline]
  cases hps : scan l with
  | nil => simp [startsReference, lineBreak]
  | cons p ps =>
    rw [startsReference_append none (List.cons_ne_nil p ps)]
    rw [hps, splitText] at hnil
    split at hnil
    · cases hnil
    · rename_i hstart
      simpa using hstart

/-- Where text went before, an inline line is a phrase of text. -/
theorem phrase_of_isInline (h : Text.isInline l = true) (hl : '\n' ∉ l) (hb : IsFree before)
    (rest : Text) :
    Phrase false before (l ++ '\n' :: rest) [.token .text (l ++ ['\n'])] true rest := by
  have hends : Text.endsLine (l ++ ['\n']) = true := by simp [Text.endsLine]
  have hphrase := Phrase.text (by simp) (by simp : false = true → _)
    (not_startsReference_of_isInline h hb rest) (splitText_of_isInline h hl hb rest)
  rwa [hends] at hphrase

/-- Where a line begins, a line that is inline and opens nothing is a phrase of text. -/
theorem phrase_of_not_opensLine (hopens : opensLine (scan l) = false) (h : Text.isInline l = true)
    (hl : '\n' ∉ l) (hb : IsFree before) (rest : Text) :
    Phrase true before (l ++ '\n' :: rest) [.token .text (l ++ ['\n'])] true rest := by
  have hends : Text.endsLine (l ++ ['\n']) = true := by simp [Text.endsLine]
  have hline : opensLine (scan (l ++ '\n' :: rest)) = false := by
    rw [Piece.scan_append_newline, opensLine_append, hopens]
  have hphrase := Phrase.text (by simp) (fun _ : true = true => hline)
    (not_startsReference_of_isInline h hb rest) (splitText_of_isInline h hl hb rest)
  rwa [hends] at hphrase

/-- A token is no longer than the stretches that it is of. -/
theorem length_le_of_mem_tokens {ss : List Stretch} {p : Position} {t : Token}
    (h : t ∈ Stretch.tokens p ss) : t.text.length ≤ (Stretch.join ss).length := by
  have hinside : t.text.Sublist (Stretch.join ss) := by
    obtain ⟨before, after, rfl⟩ := List.append_of_mem (Stretch.mem_of_mem_tokens h)
    simp [Stretch.text]
  exact hinside.length_le

/-- No token is longer than the text it comes from. -/
theorem length_text_le {lineStart : Bool} {rest : Text} {p : Position} {t : Token}
    (h : t ∈ (ahead .text lineStart before p rest).tokens) : t.text.length ≤ rest.length := by
  obtain ⟨ss, hss⟩ := exists_phrases lineStart before rest
  rw [hss.tokens p] at h
  rcases List.mem_append.mp h with h | h
  · rw [← hss.join]
    exact length_le_of_mem_tokens h
  · rw [List.mem_singleton.mp h]
    exact Nat.zero_le _

/-- A line that is one fragment of text as a script is inline and opens nothing. -/
theorem isInline_of_tokens (hne : l ≠ [])
    (h : (Token.ofText l).map (fun t => (t.kind, t.text)) = [(.text, l), (.eof, [])]) :
    opensLine (scan l) = false ∧ Text.isInline l = true := by
  obtain ⟨ss, ls, after, hphrase⟩ := exists_phrase true none hne
  have hjoin := hphrase.join
  have hlt := hphrase.length_lt
  have hof : Token.ofText l = (ahead .text true none .start l).tokens := rfl
  have hreads : (ahead .text true none .start l).tokens = _ := hphrase.reads
  rw [hof, hreads] at h
  cases hphrase with
  | comment hcomment =>
    have hmem : (Token.Kind.text, l) ∈ [(Token.Kind.text, l), (Token.Kind.eof, ([] : Text))] :=
      List.mem_cons_self
    rw [← h] at hmem
    obtain ⟨t, ht, heq⟩ := List.mem_map.mp hmem
    have hle := length_text_le (List.mem_append.mp ht |>.resolve_left (by simp [Stretch.tokens]))
    rw [(Prod.mk.inj heq).2] at hle
    omega
  | indent _ _ hleads =>
    have htext := (Prod.mk.inj (List.cons.inj h).1).2
    have hlead : after = [] := by simpa using htext
    subst hlead
    simp [Leads, header?, statement?, startsReference] at hleads
  | header => cases (Prod.mk.inj (List.cons.inj h).1).1
  | statement => cases (Prod.mk.inj (List.cons.inj h).1).1
  | reference => cases (Prod.mk.inj (List.cons.inj h).1).1
  | @text _ _ _ text _ _ hline _ hsplit =>
    have htext : text = l := (Prod.mk.inj (List.cons.inj h).1).2
    subst htext
    have hafter : after = [] := by simpa [Stretch.text] using hjoin
    refine ⟨hline rfl, ?_⟩
    rw [Text.isInline, hsplit, hafter, Piece.scan_nil]
    rfl

/-- A line that is inline and opens nothing is one fragment of text as a script. -/
theorem tokens_of_isInline (hne : l ≠ []) (hopens : opensLine (scan l) = false)
    (h : Text.isInline l = true) :
    (Token.ofText l).map (fun t => (t.kind, t.text)) = [(.text, l), (.eof, [])] := by
  have hnil : (splitText none (scan l)).2 = [] := List.isEmpty_iff.mp h
  have hstart : startsReference none (scan l) = false := by
    cases hps : scan l with
    | nil => exact absurd (Piece.scan_eq_nil_iff.mp hps) hne
    | cons p ps =>
      rw [hps, splitText] at hnil
      split at hnil
      · cases hnil
      · rename_i hstart
        simpa using hstart
  obtain ⟨taken, hscan, hjoin⟩ := splitText_append_eq none (scan l)
  rw [hnil, List.append_nil] at hscan
  have hsplit : splitText none (scan l) = (l, scan []) := by
    refine Prod.ext ?_ (by rw [hnil, Piece.scan_nil])
    rw [← hjoin, ← hscan, Piece.join_scan]
  have hphrase := Phrase.text hne (fun _ : true = true => hopens) hstart hsplit
  have hreads : (ahead .text true none .start l).tokens = _ := hphrase.reads
  have hof : Token.ofText l = (ahead .text true none .start l).tokens := rfl
  rw [hof, hreads, tokens_ahead_nil]
  rfl

/-- A line is plain exactly if it is inline and opens nothing. -/
theorem isPlain_iff : Text.isPlain l = true ↔ opensLine (scan l) = false ∧ Text.isInline l = true := by
  by_cases hne : l = []
  · subst hne
    refine ⟨fun _ => ⟨opensLine_scan_nil, ?_⟩, fun _ => rfl⟩
    simp [Text.isInline, splitText]
  · have htokens : Text.isPlain l = true ↔
        (Token.ofText l).map (fun t => (t.kind, t.text)) = [(.text, l), (.eof, [])] := by
      simp [Text.isPlain, hne]
    rw [htokens]
    exact ⟨isInline_of_tokens hne, fun h => tokens_of_isInline hne h.1 h.2⟩

/-- A blank line is plain. -/
theorem isPlain_of_isBlank (h : Text.isBlank l = true) (hl : '\n' ∉ l) : Text.isPlain l = true := by
  by_cases hne : l = []
  · rw [hne]
    rfl
  · have hhorizontal : l.all isHorizontal = true := by
      refine List.all_eq_true.mpr fun c hc => ?_
      have hbreak : c ≠ '\n' := fun heq => hl (heq ▸ hc)
      simp [isHorizontal, List.all_eq_true.mp h c hc, hbreak]
    have hscan := Piece.scan_space hne hhorizontal (show Piece.stops isHorizontal [] = true from rfl)
    rw [List.append_nil, Piece.scan_nil] at hscan
    refine isPlain_iff.mpr ⟨?_, ?_⟩
    · simp [hscan, opensLine, startsComment, splitSpace, header?, statement?, startsReference]
    · simp [Text.isInline, hscan, splitText, startsReference]

end Lexer

end PromptScript
