import PromptScript.Proofs.Lexing.Cut

/-!
# The longest match

Each kind of piece has a pattern. A scanner of these patterns that always takes the longest match
finds one at every place of every text: the patterns leave no gap, and whichever of them it takes
among the longest, the pieces have the same texts. The longest match is what keeps two runs of white
space and two words from standing side by side, and a keyword from standing beside a word character.
-/

namespace PromptScript

namespace Text

/-- No white space is a word character. -/
theorem not_isWord_of_isSpace {c : Char} (h : isSpace c = true) : isWord c = false := by
  have hall : ∀ n ∈ List.range' 9 5 ++ [0x20, 0x85, 0xA0, 0x1680] ++ List.range' 0x2000 11 ++
      [0x2028, 0x2029, 0x202F, 0x205F, 0x3000], isWord (Char.ofNat n) = false := by decide +kernel
  rw [← Char.ofNat_toNat c]
  refine hall c.toNat ?_
  simp only [isSpace, Bool.or_eq_true, Bool.and_eq_true, decide_eq_true_eq, beq_iff_eq] at h
  simp only [List.mem_append, List.mem_range'_1, List.mem_cons, List.not_mem_nil, or_false]
  omega

/-- What is a word character in lower case is one. -/
theorem isWord_of_isWord_toLower {c : Char} (h : isWord c.toLower = true) : isWord c = true := by
  delta Char.toLower at h
  split at h
  · rename_i hupper
    have hascii : c.toNat < 0x80 := by
      have hhigh : c.toNat ≤ 90 := hupper.2
      omega
    have hisUpper : c.isUpper = true := decide_eq_true hupper
    have halnum : c.isAlphanum = true := by
      change (c.isUpper || c.isLower || c.isDigit) = true
      rw [hisUpper]
      rfl
    rw [isWord, if_pos hascii, halnum]
    rfl
  · exact h

end Text

namespace Piece

open Text (isSpace isWord isName)

/-- Whether the pattern of a kind matches a text. -/
def Kind.Matches : Kind → Text → Prop
  | .newline, t => t = ['\n']
  | .space, t => t ≠ [] ∧ t.all isHorizontal = true
  | .sectionWord, t => Text.lower t ∈ sectionWords
  | .hash, t => t = ['#']
  | .at, t => ∃ name, t = '@' :: name ∧ name.all isName = true
  | .leftBrace, t => t = ['{']
  | .rightBrace, t => t = ['}']
  | .quote, t => t = ['"']
  | .word, t => t ≠ [] ∧ t.all isWord = true
  | .punct, t => ∃ c, t = [c] ∧ isWord c = false ∧ isSpace c = false ∧ c ∉ ['@', '#', '{', '}', '"']
  | k, t => (t, k) ∈ statementWords

/-- The kinds of words, plain words and keywords. -/
def wordKinds : List Kind :=
  .word :: keywordKinds

/-- The pattern of a keyword matches its word and nothing else. -/
theorem Kind.matches_iff_of_mem {k : Kind} (hk : k ∈ statementWords.map (·.2)) (t : Text) :
    k.Matches t ↔ (t, k) ∈ statementWords := by
  cases k
  all_goals first | rfl | exact absurd hk (by decide)

/-- No pattern matches the empty text. -/
theorem Kind.Matches.ne_nil {k : Kind} {t : Text} (h : k.Matches t) : t ≠ [] := by
  rintro rfl
  by_cases hk : k ∈ statementWords.map (·.2)
  · have hwords : [] ∉ statementWords.map (·.1) := by decide
    exact hwords (List.mem_map_of_mem ((matches_iff_of_mem hk []).mp h))
  · cases k
    case space => exact h.1 rfl
    case word => exact h.1 rfl
    case sectionWord =>
      have hsections : Text.lower [] ∉ sectionWords := by decide
      exact hsections h
    case «at» =>
      obtain ⟨name, hname, -⟩ := h
      cases hname
    case punct =>
      obtain ⟨c, hc, -⟩ := h
      cases hc
    all_goals first | exact hk (by decide) | cases h

/-- The patterns of words match word characters only. -/
theorem Kind.Matches.isWord {k : Kind} {t : Text} (h : k.Matches t) (hk : k ∈ wordKinds) :
    t.all isWord = true := by
  rcases List.mem_cons.mp hk with rfl | hk
  · exact h.2
  · rcases List.mem_cons.mp hk with rfl | hk
    · have hwords : ∀ word ∈ sectionWords, word.all Text.isWord = true := by decide
      have hlower := List.all_eq_true.mp (hwords _ h)
      exact List.all_eq_true.mpr fun c hc =>
        Text.isWord_of_isWord_toLower (hlower _ (List.mem_map_of_mem hc))
    · have hwords : ∀ row ∈ statementWords, row.1.all Text.isWord = true := by decide
      exact hwords _ ((matches_iff_of_mem hk t).mp h)

/-- A sound piece is one that the pattern of its kind matches. -/
theorem Sound.matches_kind {p : Piece} (h : p.Sound) : p.kind.Matches p.text := by
  cases h with
  | space hne hall => exact ⟨hne, hall⟩
  | atSign hname => exact ⟨_, rfl, hname⟩
  | @word k t hne hall hk =>
    rcases hk with rfl | hkeyword
    · exact ⟨hne, hall⟩
    · rcases keyword?_eq_some hkeyword with ⟨rfl, hmem⟩ | hmem
      · exact hmem
      · exact (Kind.matches_iff_of_mem (List.mem_map_of_mem hmem) t).mpr hmem
  | @punct c hmark hspace hword =>
    refine ⟨c, rfl, hword, hspace, ?_⟩
    simp only [marks, List.mem_cons, List.not_mem_nil, or_false, not_or] at hmark ⊢
    exact ⟨hmark.2.2.2.2.1, hmark.2.2.2.2.2, hmark.2.1, hmark.2.2.1, hmark.2.2.2.1⟩
  | _ => rfl

/-- Whether a piece is a longest match at the front of a text: the pattern of its kind matches its
text, which the text begins with, and no pattern matches a longer one. -/
structure IsLongest (p : Piece) (t : Text) : Prop where
  /-- The pattern of its kind matches the piece. -/
  matches_kind : p.kind.Matches p.text
  /-- The text begins with the piece. -/
  isPrefix : p.text <+: t
  /-- No pattern matches more of the text. -/
  longest : ∀ (k : Kind) (run : Text), k.Matches run → run <+: t → run.length ≤ p.text.length

/-- A run of a class of characters at the front of a text is no longer than the longest. -/
theorem length_le_takeWhile {p : Char → Bool} {run t : Text} (hall : run.all p = true)
    (hrun : run <+: t) : run.length ≤ (t.takeWhile p).length := by
  obtain ⟨rest, rfl⟩ := hrun
  rw [List.takeWhile_append_of_pos (List.all_eq_true.mp hall), List.length_append]
  exact Nat.le_add_right _ _

/-- No pattern matches more of a text than its first piece. -/
theorem length_le_first {k : Kind} {run : Text} (h : k.Matches run) {c : Char} {rest : Text}
    (hrun : run <+: c :: rest) : run.length ≤ (first c rest).1.text.length := by
  have hone : 1 ≤ (first c rest).1.text.length :=
    List.length_pos_iff.mpr (sound_first c rest).ne_nil
  obtain ⟨x, run, rfl⟩ := List.exists_cons_of_ne_nil h.ne_nil
  obtain ⟨rfl, htail⟩ := List.cons_prefix_cons.mp hrun
  by_cases hword : k ∈ wordKinds
  · obtain ⟨hx, hall⟩ := by simpa only [List.all_cons, Bool.and_eq_true] using h.isWord hword
    have hspace : isSpace x = false := by
      rw [← Bool.not_eq_true]
      intro hspace
      rw [Text.not_isWord_of_isSpace hspace] at hx
      cases hx
    have hline : x ≠ '\n' := by rintro rfl; revert hx; decide
    have hat : x ≠ '@' := by rintro rfl; revert hx; decide
    rw [first, if_neg hline, if_neg (by simp [hspace]), if_neg hat, if_pos hx]
    exact Nat.succ_le_succ (length_le_takeWhile hall htail)
  · cases k
    case space =>
      obtain ⟨hx, hall⟩ := by simpa only [List.all_cons, Bool.and_eq_true] using h.2
      obtain ⟨hspace, hline⟩ : isSpace x = true ∧ x ≠ '\n' := by simpa [isHorizontal] using hx
      rw [first, if_neg hline, if_pos hspace]
      exact Nat.succ_le_succ (length_le_takeWhile hall htail)
    case «at» =>
      obtain ⟨name, hname, hall⟩ := h
      obtain ⟨rfl, rfl⟩ := List.cons.inj hname
      rw [first, if_neg (by decide), if_neg (by decide), if_pos rfl]
      exact Nat.succ_le_succ (length_le_takeWhile hall htail)
    case punct =>
      obtain ⟨c, hc, -⟩ := h
      rwa [hc]
    all_goals first | exact absurd (by decide) hword | rwa [h]

/-- The first piece of a text is a longest match. -/
theorem isLongest_first (c : Char) (rest : Text) : (first c rest).1.IsLongest (c :: rest) where
  matches_kind := (sound_first c rest).matches_kind
  isPrefix := ⟨(first c rest).2, first_append c rest⟩
  longest _ _ hmatches hrun := length_le_first hmatches hrun

namespace IsLongest

variable {p q : Piece} {c : Char} {t rest : Text}

/-- Longest matches at the front of a text have the same text. -/
theorem text_eq (hp : p.IsLongest t) (hq : q.IsLongest t) : p.text = q.text := by
  have hle := hq.longest _ _ hp.matches_kind hp.isPrefix
  have hge := hp.longest _ _ hq.matches_kind hq.isPrefix
  exact (List.prefix_of_prefix_length_le hp.isPrefix hq.isPrefix hle).eq_of_length
    (Nat.le_antisymm hle hge)

/-- No pattern matches a longest match with the character after it. -/
theorem not_matches (h : p.IsLongest (p.text ++ c :: rest)) (k : Kind) :
    ¬k.Matches (p.text ++ [c]) := by
  intro hmatches
  have hlength := h.longest k _ hmatches ⟨rest, by simp⟩
  rw [List.length_append, List.length_singleton] at hlength
  omega

/-- No horizontal white space comes after a run of it. -/
theorem not_isHorizontal (h : p.IsLongest (p.text ++ c :: rest)) (hp : p.kind = .space) :
    isHorizontal c = false := by
  have hmatches := h.matches_kind
  rw [hp] at hmatches
  rw [← Bool.not_eq_true]
  intro hc
  exact h.not_matches .space ⟨by simp, by rw [List.all_append, hmatches.2]; simpa using hc⟩

/-- No word character comes after a word. -/
theorem not_isWord (h : p.IsLongest (p.text ++ c :: rest)) (hp : p.kind ∈ wordKinds) :
    isWord c = false := by
  rw [← Bool.not_eq_true]
  intro hc
  refine h.not_matches .word ⟨by simp, ?_⟩
  rw [List.all_append, h.matches_kind.isWord hp]
  simpa using hc

/-- A piece that a word character comes after does not end in one. -/
theorem not_isWord_getLast? (h : p.IsLongest (p.text ++ c :: rest)) (hc : isWord c = true) :
    p.text.getLast?.any isWord = false := by
  by_cases hword : p.kind ∈ wordKinds
  · rw [h.not_isWord hword] at hc
    cases hc
  · have hmatches := h.matches_kind
    have hname := h.not_matches .at
    generalize p.kind = k at hmatches hword
    generalize p.text = t at hmatches hname
    cases k
    case space =>
      cases hlast : t.getLast? with
      | none => rfl
      | some d =>
        have hd := List.all_eq_true.mp hmatches.2 d (List.mem_of_getLast? hlast)
        exact Text.not_isWord_of_isSpace (Bool.and_eq_true_iff.mp hd).1
    case «at» =>
      obtain ⟨name, rfl, hall⟩ := hmatches
      refine absurd ⟨name ++ [c], rfl, ?_⟩ hname
      simp [hall, isName, hc]
    case punct =>
      obtain ⟨d, rfl, hd, -⟩ := hmatches
      exact hd
    all_goals first | exact absurd (by decide) hword | (rw [hmatches]; decide)

end IsLongest

/-- Whether each of some pieces in a row is a longest match where it stands. -/
def AreLongest (ps : List Piece) : Prop :=
  ∀ before p after, ps = before ++ p :: after → p.IsLongest (p.text ++ join after)

/-- How pieces in a row stand apart. -/
structure StandApart (ps : List Piece) : Prop where
  /-- No piece is empty. -/
  ne_nil : ∀ p ∈ ps, p.text ≠ []
  /-- No two runs of white space are neighbours. -/
  spaces : ∀ before p q after, ps = before ++ p :: q :: after → ¬(p.kind = .space ∧ q.kind = .space)
  /-- No two words, plain or keywords, are neighbours. -/
  words : ∀ before p q after, ps = before ++ p :: q :: after →
    ¬(p.kind ∈ wordKinds ∧ q.kind ∈ wordKinds)
  /-- No word, plain or a keyword, has a word character just before it or just after it. -/
  whole : ∀ before p after, ps = before ++ p :: after → p.kind ∈ wordKinds →
    (join before).getLast?.any isWord = false ∧ (join after).head?.any isWord = false

namespace AreLongest

variable {ps before after : List Piece} {p q : Piece}

/-- A longest match has characters. -/
theorem ne_nil (h : AreLongest ps) (hp : p ∈ ps) : p.text ≠ [] := by
  obtain ⟨before, after, rfl⟩ := List.append_of_mem hp
  exact (h before p after rfl).matches_kind.ne_nil

/-- A piece is a longest match in front of the first character of the next one. -/
theorem neighbours (h : AreLongest ps) (heq : ps = before ++ p :: q :: after) :
    ∃ c rest, q.text = c :: rest ∧ p.IsLongest (p.text ++ c :: (rest ++ join after)) ∧
      q.kind.Matches (c :: rest) := by
  have hmatches := (h (before ++ [p]) q after (by simp [heq])).matches_kind
  obtain ⟨c, rest, htext⟩ := List.exists_cons_of_ne_nil hmatches.ne_nil
  have hp := h before p (q :: after) heq
  rw [join_cons, htext, List.cons_append] at hp
  exact ⟨c, rest, htext, hp, htext ▸ hmatches⟩

/-- A word has no word character just before it. -/
theorem not_isWord_before (h : AreLongest ps) (heq : ps = before ++ p :: after)
    (hp : p.kind ∈ wordKinds) : (join before).getLast?.any isWord = false := by
  rcases List.eq_nil_or_concat before with rfl | ⟨front, o, rfl⟩
  · rfl
  · have hsplit : ps = front ++ o :: p :: after := by simp [heq]
    obtain ⟨c, rest, -, ho, hmatches⟩ := h.neighbours hsplit
    have hc := (Bool.and_eq_true_iff.mp (hmatches.isWord hp)).1
    obtain ⟨d, hd⟩ := Option.ne_none_iff_exists'.mp
      (mt List.getLast?_eq_none_iff.mp (h.ne_nil (p := o) (by simp [hsplit])))
    have hlast := ho.not_isWord_getLast? hc
    rw [hd] at hlast
    simpa [List.getLast?_append, hd] using hlast

/-- A word has no word character just after it. -/
theorem not_isWord_after (h : AreLongest ps) (heq : ps = before ++ p :: after)
    (hp : p.kind ∈ wordKinds) : (join after).head?.any isWord = false := by
  have hlongest := h before p after heq
  cases hafter : join after with
  | nil => rfl
  | cons c rest =>
    rw [hafter] at hlongest
    exact hlongest.not_isWord hp

/-- Longest matches in a row stand apart. -/
theorem standApart (h : AreLongest ps) : StandApart ps where
  ne_nil _ hp := h.ne_nil hp
  spaces before p q after heq hkinds := by
    obtain ⟨c, rest, -, hp, hmatches⟩ := h.neighbours heq
    rw [hkinds.2] at hmatches
    have hc := (Bool.and_eq_true_iff.mp hmatches.2).1
    rw [hp.not_isHorizontal hkinds.1] at hc
    cases hc
  words before p q after heq hkinds := by
    obtain ⟨c, rest, -, hp, hmatches⟩ := h.neighbours heq
    have hc := (Bool.and_eq_true_iff.mp (hmatches.isWord hkinds.2)).1
    rw [hp.not_isWord hkinds.1] at hc
    cases hc
  whole _ _ _ heq hp := ⟨h.not_isWord_before heq hp, h.not_isWord_after heq hp⟩

end AreLongest

/-- What a scanner that always takes the longest match gives for a text: at each place a piece that is
a longest match, whichever it takes if there are several, and where there is none an error for one
character. -/
inductive Munches : Text → List (Option Piece) → Prop
  | nil : Munches [] []
  | piece {p : Piece} {rest : Text} {results : List (Option Piece)}
      (h : p.IsLongest (p.text ++ rest)) (hrest : Munches rest results) :
      Munches (p.text ++ rest) (some p :: results)
  | error {c : Char} {rest : Text} {results : List (Option Piece)}
      (h : ∀ p : Piece, ¬p.IsLongest (c :: rest)) (hrest : Munches rest results) :
      Munches (c :: rest) (none :: results)

/-- Scanning takes the longest match everywhere. -/
theorem munches_scan (t : Text) : Munches t ((scan t).map some) := by
  fun_induction scan t with
  | case1 => exact .nil
  | case2 c rest ih =>
    have hfirst := isLongest_first c rest
    rw [← first_append c rest] at hfirst
    have hpiece := Munches.piece hfirst ih
    rwa [first_append] at hpiece

/-- A scanner that takes the longest match gives no error, and pieces with the texts of a scan. -/
theorem Munches.exists_pieces {t : Text} {results : List (Option Piece)} (h : Munches t results) :
    ∃ ps, results = ps.map some ∧ AreLongest ps ∧ join ps = t ∧
      ps.map (·.text) = (scan t).map (·.text) := by
  induction h with
  | nil => exact ⟨[], rfl, fun before p after heq => by simp at heq, rfl, by simp⟩
  | @piece p rest results h _ ih =>
    obtain ⟨ps, rfl, hlongest, hjoin, htexts⟩ := ih
    refine ⟨p :: ps, rfl, fun before q after heq => ?_, by rw [join_cons, hjoin], ?_⟩
    · cases before with
      | nil =>
        obtain ⟨rfl, rfl⟩ := List.cons.inj heq
        rwa [hjoin]
      | cons _ before => exact hlongest before q after (List.cons.inj heq).2
    · obtain ⟨c, tail, htext⟩ := List.exists_cons_of_ne_nil h.matches_kind.ne_nil
      have hfirst := isLongest_first c (tail ++ rest)
      rw [← List.cons_append, ← htext] at hfirst
      have hsame := h.text_eq hfirst
      have hsplit := first_append c (tail ++ rest)
      rw [← hsame, ← List.cons_append, ← htext] at hsplit
      rw [htext, List.cons_append, scan_cons, List.map_cons, List.map_cons, ← hsame,
        List.append_cancel_left hsplit, htexts]
  | @error c rest _ h => exact absurd (isLongest_first c rest) (h _)

/-- Taking white space takes one piece at most. -/
theorem length_le_length_splitSpace (ps : List Piece) :
    ps.length ≤ (Lexer.splitSpace ps).2.length + 1 := by
  cases ps with
  | nil => exact Nat.zero_le _
  | cons p rest =>
    rw [Lexer.splitSpace]
    split
    · exact Nat.le_refl _
    · exact Nat.le_succ _

/-- The pieces of a text are longest matches of the patterns and make up the text: they leave no gap
and no error, whichever of several longest matches is taken. No two runs of white space and no two
words are neighbours, and no keyword has a word character beside it. So passing one piece of white
space passes all the white space there. -/
theorem pieces_cover (t : Text) :
    Munches t ((scan t).map some) ∧ join (scan t) = t ∧ StandApart (scan t) ∧
    (∀ results, Munches t results → ∃ ps, results = ps.map some ∧
      ps.map (·.text) = (scan t).map (·.text) ∧ StandApart ps) ∧
    ∀ before after, scan t = before ++ after →
      (Lexer.splitSpace after).1 = (join after).takeWhile isHorizontal ∧
      join (Lexer.splitSpace after).2 = (join after).dropWhile isHorizontal ∧
      after.length ≤ (Lexer.splitSpace after).2.length + 1 := by
  have hall (results) (h : Munches t results) : ∃ ps, results = ps.map some ∧
      ps.map (·.text) = (scan t).map (·.text) ∧ StandApart ps := by
    obtain ⟨ps, hresults, hlongest, -, htexts⟩ := h.exists_pieces
    exact ⟨ps, hresults, htexts, hlongest.standApart⟩
  refine ⟨munches_scan t, join_scan t, ?_, hall, fun before after hscan => ?_⟩
  · obtain ⟨ps, hresults, -, hapart⟩ := hall _ (munches_scan t)
    rwa [(List.map_inj_right fun _ _ => Option.some.inj).mp hresults]
  · have hspace := Lexer.splitSpace_scan (join after)
    rw [← (eq_append_of_scan hscan).2] at hspace
    refine ⟨?_, ?_, length_le_length_splitSpace after⟩
    · rw [hspace]
    · rw [hspace, join_scan]

/-- White space and a keyword after a word that begins like one. -/
theorem pieces_cover_ends :
    scan "ENDS END".toList =
      [⟨.word, "ENDS".toList⟩] ++ [⟨.space, [' ']⟩, ⟨.endWord, "END".toList⟩] ∧
    Munches "ENDS END".toList ((scan "ENDS END".toList).map some) ∧
    (∃ ps, (scan "ENDS END".toList).map some = ps.map some ∧
      ps.map (·.text) = (scan "ENDS END".toList).map (·.text) ∧ StandApart ps) ∧
    (Lexer.splitSpace [⟨.space, [' ']⟩, ⟨.endWord, "END".toList⟩]).1 = [' '] := by
  have hscan : scan "ENDS END".toList =
      [⟨.word, "ENDS".toList⟩] ++ [⟨.space, [' ']⟩, ⟨.endWord, "END".toList⟩] := by
    decide +kernel
  obtain ⟨hmunches, -, -, hall, hpasses⟩ := pieces_cover "ENDS END".toList
  exact ⟨hscan, hmunches, hall _ hmunches, (hpasses _ _ hscan).1.trans (by decide +kernel)⟩

end Piece

end PromptScript
