import PromptScript.Proofs.Lexing.Plain
import PromptScript.Proofs.Parsing.Steps
import PromptScript.Proofs.Text.Lines

/-!
# Passages

A passage is a text that changes the outline in one way whatever stands after it. Headers, plain
lines, statements and references whose body ends at its brace are passages, and passages in a row
are one passage.
-/

namespace PromptScript

open Piece (scan isHorizontal)
open Lexer (ahead IsFree Phrase Reads)

namespace Piece

/-- The keywords as they are written in a rendered form. -/
def writtenKeywords : List (Text × Kind) :=
  ("TASK".toList, .sectionWord) :: ("ACTION".toList, .sectionWord) ::
    ("GOAL".toList, .sectionWord) :: statementWords

/-- The characters that stand after a keyword in a rendered form. -/
def keywordEnds : List Char :=
  [' ', '\n', ':']

/-- A keyword is one piece where a character follows that ends it. -/
theorem scan_keyword (word : Text) (k : Kind) (hword : (word, k) ∈ writtenKeywords) {c : Char}
    (hc : c ∈ keywordEnds) (rest : Text) :
    scan (word ++ c :: rest) = ⟨k, word⟩ :: scan (c :: rest) := by
  have hends : keywordEnds.all (fun c => !Text.isWord c && !masksKeyword c) = true := by decide
  have hall : ∀ entry ∈ writtenKeywords, keyword? entry.1 = some entry.2 ∧
      entry.1.all Text.isWord = true ∧
        entry.1.head?.any (fun x => x != '\n' && !Text.isSpace x && x != '@') = true := by decide
  obtain ⟨hkeyword, hrun, hstart⟩ := hall _ hword
  obtain ⟨hstop, hmask⟩ : Text.isWord c = false ∧ masksKeyword c = false := by
    simpa using List.all_eq_true.mp hends c hc
  cases word with
  | nil => cases hstart
  | cons x word =>
    have hx : x ≠ '\n' ∧ Text.isSpace x = false ∧ x ≠ '@' := by
      simpa [and_assoc] using hstart
    have hkind : wordKind (x :: word) (c :: rest) = k := by
      simp [wordKind, hmask, hkeyword]
    have hstops : stops Text.isWord (c :: rest) = true := by simp [stops, hstop]
    have hscan := scan_word hx hrun hstops
    rwa [hkind] at hscan

/-- A blank before a keyword is a piece of its own. -/
theorem scan_blank_keyword (word : Text) (k : Kind) (hword : (word, k) ∈ writtenKeywords) {c : Char}
    (hc : c ∈ keywordEnds) (rest : Text) :
    scan (' ' :: (word ++ c :: rest)) = ⟨.space, [' ']⟩ :: ⟨k, word⟩ :: scan (c :: rest) := by
  have hall : ∀ entry ∈ writtenKeywords, entry.1.head?.any (!isHorizontal ·) = true := by decide
  have hstops : stops isHorizontal (word ++ c :: rest) = true := by
    have hstart := hall _ hword
    cases word with
    | nil => cases hstart
    | cons x word => simpa [stops] using hstart
  have hscan := scan_space (List.cons_ne_nil ' ' []) (by decide) hstops
  rw [List.singleton_append] at hscan
  rw [hscan, scan_keyword word k hword hc]

end Piece

namespace Lexer

open Piece (scan_keyword scan_blank_keyword writtenKeywords keywordEnds)

/-- A keyword of one word in front of a text is a statement. -/
theorem statement?_one (word : Text) (k : Piece.Kind) (hword : (word, k) ∈ writtenKeywords)
    (hk : k = .ifWord ∨ k = .elseWord ∨ k = .endWord) {c : Char} (hc : c ∈ keywordEnds)
    (rest : Text) : statement? (scan (word ++ c :: rest)) = some (word, scan (c :: rest)) := by
  rw [scan_keyword word k hword hc]
  exact if_pos hk

/-- A keyword of two words in front of a text is a statement. -/
theorem statement?_two (word other : Text) (k : Piece.Kind) {second : Piece.Kind}
    (hword : (word, k) ∈ writtenKeywords) (hk : ¬(k = .ifWord ∨ k = .elseWord ∨ k = .endWord))
    (hsecond : secondWord? k = some second) (hother : (other, second) ∈ writtenKeywords)
    {c : Char} (hc : c ∈ keywordEnds) (rest : Text) :
    statement? (scan (word ++ ' ' :: other ++ c :: rest)) =
      some (word ++ ' ' :: other, scan (c :: rest)) := by
  have hsplit : word ++ ' ' :: other ++ c :: rest = word ++ ' ' :: (other ++ c :: rest) := by simp
  rw [hsplit, scan_keyword word k hword (by decide), scan_blank_keyword other second hother hc]
  unfold statement?
  simp [hk, hsecond]

/-- The word of a section with a colon after it is a header. -/
theorem header?_keyword (kind : SectionKind) (rest : Text) :
    header? (scan (kind.keyword ++ ':' :: rest)) = some (kind.keyword ++ [':'], scan rest) := by
  have hword : (kind.keyword, .sectionWord) ∈ writtenKeywords := by cases kind <;> decide
  rw [scan_keyword kind.keyword .sectionWord hword (by decide), header?, if_pos rfl,
    Piece.scan_colon]
  simp [splitSpace]

end Lexer

namespace Text

/-- Whether lines read as text and nothing else: the first of them where text went before, unless
a line begins there, and the others each at the start of a line. -/
def readsAsText (lineStart : Bool) : List Text → Bool
  | [] => true
  | l :: ls => (if lineStart then isPlain l else isInline l) && ls.all isPlain

@[simp] theorem isInline_nil : isInline [] = true := by
  simp [isInline, Lexer.splitText]

@[simp] theorem isPlain_nil : isPlain [] = true := rfl

/-- A plain line is inline. -/
theorem isInline_of_isPlain {l : Text} (h : isPlain l = true) : isInline l = true :=
  (Lexer.isPlain_iff.mp h).2

/-- A blank before a line that does not begin with white space does not keep it from being
inline. -/
theorem isInline_blank {l : Text} (h : l.head?.any isSpace = false) :
    isInline (' ' :: l) = isInline l := by
  have hstops : Piece.stops isHorizontal l = true := by
    cases l with
    | nil => rfl
    | cons c l =>
      have hc : isSpace c = false := h
      simp [Piece.stops, isHorizontal, hc]
  have hscan := Piece.scan_space (List.cons_ne_nil ' ' []) (by decide) hstops
  have hfree : IsFree (some ' ') := rfl
  rw [List.singleton_append] at hscan
  rw [isInline, hscan, Lexer.splitText]
  simp [Lexer.startsReference, Lexer.splitText_of_isFree hfree, isInline]

/-- A blank before a trimmed text makes no difference to whether its lines read as text. -/
theorem readsAsText_spaced {t : Text} (h : trim t = t) :
    readsAsText false (spaced t) = readsAsText false (lines t) := by
  rw [spaced]
  cases hlines : lines t with
  | nil =>
    have hblank : isInline [' '] = true := by rw [isInline_blank rfl, isInline_nil]
    simp [readsAsText, hblank]
  | cons l ls =>
    have hl : l.head?.any isSpace = false := by
      rcases head?_of_lines hlines with hhead | hhead
      · rw [hhead]
        rfl
      · rw [hhead]
        exact (trim_eq_self_iff.mp h).1
    simp [readsAsText, isInline_blank hl]

end Text

namespace Lexer

/-- The kinds and texts of the tokens of lines that read as text. -/
def linesRead (ls : List Text) : List (Token.Kind × Text) :=
  ls.map fun l => (.text, l ++ ['\n'])

/-- The tokens of lines that read as text are one for each line, whatever comes after them. -/
theorem tokens_unlines {ls : List Text} {lineStart : Bool} {before : Option Char}
    (hb : IsFree before) (h : Text.readsAsText lineStart ls = true) (hline : ∀ l ∈ ls, '\n' ∉ l)
    (p : Position) (rest : Text) :
    ∃ (free : Option Char) (q : Position) (ts : List Token), IsFree free ∧
      ts.map (fun t => (t.kind, t.text)) = linesRead ls ∧
      (ahead .text lineStart before p (Text.unlines ls ++ rest)).tokens =
        ts ++ (ahead .text (lineStart || !ls.isEmpty) free q rest).tokens := by
  induction ls generalizing lineStart before p with
  | nil => exact ⟨before, p, [], hb, rfl, by simp⟩
  | cons l ls ih =>
    obtain ⟨hfirst, hrest⟩ := by simpa only [Text.readsAsText, Bool.and_eq_true] using h
    have hl : '\n' ∉ l := hline l List.mem_cons_self
    have hphrase : Phrase lineStart before (l ++ '\n' :: (Text.unlines ls ++ rest))
        [.token .text (l ++ ['\n'])] true (Text.unlines ls ++ rest) := by
      cases lineStart with
      | false => exact phrase_of_isInline hfirst hl hb _
      | true =>
        obtain ⟨hopens, hinline⟩ := isPlain_iff.mp hfirst
        exact phrase_of_not_opensLine hopens hinline hl hb _
    have hmore : Text.readsAsText true ls = true := by
      cases ls with
      | nil => rfl
      | cons m ls => simpa [Text.readsAsText] using hrest
    have hbreak : IsFree (some '\n') := rfl
    obtain ⟨free, q, ts, hfree, hts, htokens⟩ := ih hbreak hmore
      (fun m hm => hline m (List.mem_cons_of_mem l hm)) (p.advance (l ++ ['\n']))
    have hreads : (ahead .text lineStart before p (l ++ '\n' :: (Text.unlines ls ++ rest))).tokens = _ :=
      hphrase.reads
    refine ⟨free, q, ⟨.text, l ++ ['\n'], p⟩ :: ts, hfree, ?_, ?_⟩
    · rw [List.map_cons, hts]
      rfl
    · rw [Text.unlines_cons, List.append_assoc, List.cons_append, hreads]
      simp only [Stretch.join_cons, Stretch.join_nil, Stretch.text, List.append_nil,
        List.getLast?_concat, Option.some_or, Stretch.tokens, List.cons_append, List.nil_append,
        place_ahead]
      rw [htokens]
      simp

variable {ts : List Token} {lines : List Text}

/-- The tokens of lines that read as text are text. -/
theorem isText_of_linesRead (h : ts.map (fun t => (t.kind, t.text)) = linesRead lines) :
    ∀ t ∈ ts, t.isText = true := by
  intro t ht
  have hmem : (t.kind, t.text) ∈ linesRead lines := by
    rw [← h]
    exact List.mem_map_of_mem ht
  obtain ⟨l, -, heq⟩ := List.mem_map.mp hmem
  have hkind : t.kind = .text := (Prod.mk.inj heq).1.symm
  simp [Token.isText, hkind]

/-- The characters of the tokens of lines are those of the lines and their line breaks. -/
theorem textOf_of_linesRead (h : ts.map (fun t => (t.kind, t.text)) = linesRead lines) :
    Draft.textOf ts = Text.unlines lines := by
  have htexts := congrArg (List.flatMap Prod.snd) h
  rwa [linesRead, List.flatMap_map, List.flatMap_map] at htexts

/-- The last token of such lines ends a line. -/
theorem endsLine_of_linesRead (h : ts.map (fun t => (t.kind, t.text)) = linesRead lines)
    (hne : lines ≠ []) : ts.getLast?.any Token.endsLine = true := by
  have hlast := congrArg List.getLast? h
  rw [linesRead, List.getLast?_map, List.getLast?_map] at hlast
  cases hl : lines.getLast? with
  | none => exact absurd (List.getLast?_eq_none_iff.mp hl) hne
  | some l =>
    rw [hl] at hlast
    obtain ⟨t, ht, heq⟩ := Option.map_eq_some_iff.mp hlast
    have htext : t.text = l ++ ['\n'] := (Prod.mk.inj heq).2
    rw [ht]
    simp [Token.endsLine, htext, Text.endsLine]

end Lexer

namespace Outline

/-- Whether a text changes an outline into another whatever comes after it. Only white space was
seen on the line before it or after it as the flags say. -/
def Passes (o : Outline) (lineStart : Bool) (text : Text) (result : Outline) (ls : Bool) : Prop :=
  ∀ (before : Option Char) (p : Position) (rest : Text), IsFree before →
    ∃ (free : Option Char) (q : Position), IsFree free ∧
      o.read (ahead .text lineStart before p (text ++ rest)) =
        result.read (ahead .text ls free q rest)

variable {o m result : Outline} {lineStart lm ls : Bool}

namespace Passes

/-- An empty text changes nothing. -/
theorem refl (o : Outline) (lineStart : Bool) : o.Passes lineStart [] o lineStart :=
  fun before p _ hb => ⟨before, p, hb, rfl⟩

/-- Passages in a row are a passage. -/
theorem trans {s t : Text} (h : o.Passes lineStart s m lm) (hnext : m.Passes lm t result ls) :
    o.Passes lineStart (s ++ t) result ls := by
  intro before p rest hb
  obtain ⟨free, q, hfree, hread⟩ := h before p (t ++ rest) hb
  obtain ⟨last, r, hlast, hmore⟩ := hnext free q rest hfree
  exact ⟨last, r, hlast, by rw [List.append_assoc, hread, hmore]⟩

end Passes

/-- The outline after lines of text. -/
def texts (o : Outline) (ls : List Text) : Outline :=
  ls.foldl (fun o l => o.text (l ++ ['\n'])) o

@[simp] theorem texts_nil (o : Outline) : o.texts [] = o := rfl

/-- Lines of text are applied one after the other, each with its line break. -/
@[simp] theorem texts_cons (o : Outline) (l : Text) (ls : List Text) :
    o.texts (l :: ls) = (o.text (l ++ ['\n'])).texts ls := rfl

/-- Text tokens are items of their own. -/
theorem applyAll_texts {ts : List Token} {lines : List Text}
    (h : ts.map (fun t => (t.kind, t.text)) = Lexer.linesRead lines) (o : Outline)
    (more : List Token) :
    o.applyAll (Item.ofTokens (ts ++ more)) = (o.texts lines).applyAll (Item.ofTokens more) := by
  induction ts generalizing lines o with
  | nil =>
    cases lines with
    | nil => rfl
    | cons => cases h
  | cons t ts ih =>
    cases lines with
    | nil => cases h
    | cons l lines =>
      obtain ⟨hfirst, hrest⟩ := List.cons.inj h
      obtain ⟨hkind, htext⟩ := Prod.mk.inj hfirst
      rw [List.cons_append, Item.ofTokens_text hkind, applyAll_cons, ih hrest, texts_cons, ← htext]
      rfl

/-- Lines that read as text are a passage. -/
theorem passes_unlines {lines : List Text} (h : Text.readsAsText lineStart lines = true)
    (hline : ∀ l ∈ lines, '\n' ∉ l) :
    o.Passes lineStart (Text.unlines lines) (o.texts lines) (lineStart || !lines.isEmpty) := by
  intro before p rest hb
  obtain ⟨free, q, ts, hfree, hts, htokens⟩ := Lexer.tokens_unlines hb h hline p rest
  exact ⟨free, q, hfree, by rw [read, htokens, applyAll_texts hts, read]⟩

/-- A line break is a passage. -/
theorem passes_break (o : Outline) (lineStart : Bool) :
    o.Passes lineStart ['\n'] (o.text ['\n']) true := by
  have hlines : Text.readsAsText lineStart [[]] = true := by
    cases lineStart <;> simp [Text.readsAsText]
  have hpasses : o.Passes lineStart (Text.unlines [[]]) _ (lineStart || !false) :=
    passes_unlines hlines (by simp)
  rwa [Bool.not_false, Bool.or_true] at hpasses

/-- The word of a section with a colon after it is a passage. -/
theorem passes_header (kind : SectionKind) :
    o.Passes true (kind.keyword ++ [':']) (o.header kind) false := by
  intro before p rest _
  have hheader := Lexer.header?_keyword kind rest
  have hkind : SectionKind.ofHeader? (kind.keyword ++ [':']) = some kind := by
    cases kind <;> decide
  have hphrase : Phrase true before _ _ false rest := .header hheader
  have hread := read_header (o := o) (hphrase.reads (p := p)) hkind
  have hfree : IsFree ((kind.keyword ++ [':']).getLast?.or before) := by
    rw [List.getLast?_concat]
    rfl
  rw [List.append_assoc, List.singleton_append]
  exact ⟨_, p.advance (kind.keyword ++ [':']), hfree, hread⟩

/-- A statement on a line of its own is a passage. -/
theorem passes_statement {word line : Text} (hline : '\n' ∉ line)
    (hstatement : ∀ rest, Lexer.statement? (scan (word ++ (line ++ '\n' :: rest))) =
      some (word, scan (line ++ '\n' :: rest))) :
    o.Passes true (word ++ line ++ ['\n']) (o.statement word (some (line ++ ['\n']))) true := by
  intro before p rest _
  have hcut : Text.cutLine (line ++ '\n' :: rest) = (line ++ ['\n'], rest) := by
    rw [Text.cutLine_append hline, Text.cutLine, if_pos rfl]
  have hphrase : Phrase true before _ _ true _ := .statement (hstatement rest)
  rw [hcut] at hphrase
  have hread := read_statement (o := o) (hphrase.reads (p := p)) (by simp)
  have hfree : IsFree ((word ++ (line ++ ['\n'])).getLast?.or before) := by
    rw [← List.append_assoc, List.getLast?_concat]
    rfl
  have hjoin : word ++ line ++ ['\n'] ++ rest = word ++ (line ++ '\n' :: rest) := by simp
  rw [hjoin]
  exact ⟨_, p.advance (word ++ (line ++ ['\n'])), hfree, hread⟩

end Outline

end PromptScript
