import PromptScript.Proofs.Piece.Scan

/-!
# What pieces hold

The kind of a scanned piece and its characters determine each other as far as the lexer looks:
only a line break holds a line break, only a brace holds a brace, and so on.
-/

namespace PromptScript.Piece

/-- A piece as scanning gives it: its characters are those that its kind stands for. -/
inductive Sound : Piece → Prop
  | newline : Sound lineBreak
  | space {t : Text} : t ≠ [] → t.all isHorizontal = true → Sound ⟨.space, t⟩
  | atSign {name : Text} : name.all Text.isName = true → Sound ⟨.at, '@' :: name⟩
  | word {k : Kind} {t : Text} : t ≠ [] → t.all Text.isWord = true →
      k = .word ∨ keyword? t = some k → Sound ⟨k, t⟩
  | hash : Sound ⟨.hash, ['#']⟩
  | leftBrace : Sound ⟨.leftBrace, ['{']⟩
  | rightBrace : Sound ⟨.rightBrace, ['}']⟩
  | quote : Sound ⟨.quote, ['"']⟩
  | punct {c : Char} : c ∉ marks → Text.isSpace c = false → Text.isWord c = false →
      Sound ⟨.punct, [c]⟩

/-- A word is a plain one, or it has the kind of the keyword that it is. -/
theorem wordKind_eq (run after : Text) :
    wordKind run after = .word ∨ keyword? run = some (wordKind run after) := by
  unfold wordKind
  split
  · exact Or.inl rfl
  · cases keyword? run with
    | none => exact Or.inl rfl
    | some k => exact Or.inr rfl

/-- The first piece of a text is sound. -/
theorem sound_first (c : Char) (rest : Text) : (first c rest).1.Sound := by
  have htake (p : Char → Bool) : (rest.takeWhile p).all p = true := List.all_takeWhile
  unfold first
  split
  · rename_i h
    exact h ▸ .newline
  · rename_i hnewline
    split
    · rename_i hspace
      refine .space (List.cons_ne_nil _ _) ?_
      rw [List.all_cons, htake]
      simp [isHorizontal, hspace, hnewline]
    · rename_i hspace
      split
      · rename_i h
        exact h ▸ .atSign (htake _)
      · rename_i hat
        split
        · rename_i hword
          exact .word (List.cons_ne_nil _ _) (by rw [List.all_cons, hword, htake]; rfl)
            (wordKind_eq _ _)
        · rename_i hword
          split
          · rename_i h
            exact h ▸ .hash
          · rename_i hhash
            split
            · rename_i h
              exact h ▸ .leftBrace
            · rename_i hleft
              split
              · rename_i h
                exact h ▸ .rightBrace
              · rename_i hright
                split
                · rename_i h
                  exact h ▸ .quote
                · rename_i hquote
                  refine .punct ?_ (by simpa using hspace) (by simpa using hword)
                  simp only [marks, List.mem_cons, List.not_mem_nil, or_false, not_or]
                  exact ⟨hnewline, hleft, hright, hquote, hat, hhash⟩

/-- Every piece of a text is sound. -/
theorem sound_of_mem_scan {t : Text} {p : Piece} (h : p ∈ scan t) : p.Sound := by
  fun_induction scan t with
  | case1 => cases h
  | case2 c rest ih =>
    rcases List.mem_cons.mp h with rfl | h
    · exact sound_first c rest
    · exact ih h

/-- The kinds of keywords are those of the section word and of the statement words. -/
theorem keyword?_eq_some {run : Text} {k : Kind} (h : keyword? run = some k) :
    (k = .sectionWord ∧ Text.lower run ∈ sectionWords) ∨ (run, k) ∈ statementWords := by
  unfold keyword? at h
  split at h
  · rename_i hmem
    cases h
    exact Or.inl ⟨rfl, List.contains_iff_mem.mp hmem⟩
  · obtain ⟨l₁, l₂, hsplit, -⟩ := List.lookup_eq_some_iff.mp h
    rw [hsplit]
    exact Or.inr (by simp)

/-- The kinds of keywords. -/
def keywordKinds : List Kind :=
  .sectionWord :: statementWords.map (·.2)

/-- What a keyword is scanned as is the kind of a keyword. -/
theorem mem_keywordKinds {run : Text} {k : Kind} (h : keyword? run = some k) :
    k ∈ keywordKinds := by
  rcases keyword?_eq_some h with ⟨rfl, -⟩ | hmem
  · exact List.mem_cons_self
  · exact List.mem_cons_of_mem _ (List.mem_map.mpr ⟨_, hmem, rfl⟩)

namespace Sound

variable {p : Piece}

/-- A piece has characters. -/
theorem ne_nil (h : p.Sound) : p.text ≠ [] := by
  cases h with
  | space hne _ => exact hne
  | word hne _ _ => exact hne
  | _ => simp [lineBreak]

/-- A piece that holds a mark is the piece of the mark, or an at sign with its name. -/
theorem eq_of_mem_marks (h : p.Sound) {c : Char} (hc : c ∈ p.text) (hmark : c ∈ marks) :
    (p.kind = .newline ∧ c = '\n') ∨ (p.kind = .leftBrace ∧ c = '{') ∨
      (p.kind = .rightBrace ∧ c = '}') ∨ (p.kind = .quote ∧ c = '"') ∨
        (p.kind = .at ∧ c = '@') ∨ (p.kind = .hash ∧ c = '#') := by
  cases h with
  | newline => simp_all [lineBreak]
  | space _ hall =>
    have := List.all_eq_true.mp hall c hc
    rw [not_isHorizontal_of_mem_marks hmark] at this
    cases this
  | atSign hname =>
    rcases List.mem_cons.mp hc with rfl | hc
    · simp
    · have := List.all_eq_true.mp hname c hc
      rw [not_isName_of_mem_marks hmark] at this
      cases this
  | word _ hall _ =>
    have := List.all_eq_true.mp hall c hc
    rw [not_isWord_of_mem_marks hmark] at this
    cases this
  | punct hne =>
    rw [List.mem_singleton.mp hc] at hmark
    exact absurd hmark hne
  | _ => simp_all

/-- Only the piece of a line break holds one. -/
theorem not_mem_newline (h : p.Sound) (hkind : p.kind ≠ .newline) : '\n' ∉ p.text := by
  intro hmem
  rcases h.eq_of_mem_marks hmem (by decide) with h | h | h | h | h | h <;> simp_all

/-- Only the piece of an opening brace holds one. -/
theorem not_mem_leftBrace (h : p.Sound) (hkind : p.kind ≠ .leftBrace) : '{' ∉ p.text := by
  intro hmem
  rcases h.eq_of_mem_marks hmem (by decide) with h | h | h | h | h | h <;> simp_all

/-- Only the piece of a closing brace holds one. -/
theorem not_mem_rightBrace (h : p.Sound) (hkind : p.kind ≠ .rightBrace) : '}' ∉ p.text := by
  intro hmem
  rcases h.eq_of_mem_marks hmem (by decide) with h | h | h | h | h | h <;> simp_all

/-- Only the piece of a double quote holds one. -/
theorem not_mem_quote (h : p.Sound) (hkind : p.kind ≠ .quote) : '"' ∉ p.text := by
  intro hmem
  rcases h.eq_of_mem_marks hmem (by decide) with h | h | h | h | h | h <;> simp_all

/-- A piece of the kind of a keyword is that keyword. -/
theorem keyword?_text (h : p.Sound) (hkind : p.kind ∈ keywordKinds) :
    keyword? p.text = some p.kind := by
  cases h with
  | word _ _ hk =>
    refine hk.resolve_left ?_
    rintro rfl
    exact absurd hkind (by dsimp only; decide)
  | newline | hash | leftBrace | rightBrace | quote => exact absurd hkind (by decide)
  | _ => exact absurd hkind (by dsimp only; decide)

/-- A piece of the kind of a statement word is that word. -/
theorem text_of_kind (h : p.Sound) (word : Text) {k : Kind} (hk : p.kind = k)
    (hword : (word, k) ∈ statementWords) : p.text = word := by
  subst hk
  have hkeyword := h.keyword?_text (List.mem_cons_of_mem _ (List.mem_map_of_mem hword))
  have hsame : ∀ a ∈ statementWords, ∀ b ∈ statementWords, a.2 = b.2 → a.1 = b.1 := by decide
  have hsection : Kind.sectionWord ∉ statementWords.map Prod.snd := by decide
  rcases keyword?_eq_some hkeyword with ⟨hkind, -⟩ | hmem
  · rw [hkind] at hword
    exact absurd (List.mem_map_of_mem hword) hsection
  · exact hsame _ hmem _ hword rfl

/-- A piece that is neither a plain word nor a keyword is what its kind says. -/
theorem not_word (h : p.Sound) (hkind : p.kind ∉ .word :: keywordKinds) :
    p = lineBreak ∨ (p.kind = .space ∧ p.text ≠ [] ∧ p.text.all isHorizontal = true) ∨
      (∃ name, p = ⟨.at, '@' :: name⟩ ∧ name.all Text.isName = true) ∨ p = ⟨.hash, ['#']⟩ ∨
        p = ⟨.leftBrace, ['{']⟩ ∨ p = ⟨.rightBrace, ['}']⟩ ∨ p = ⟨.quote, ['"']⟩ ∨
          p.kind = .punct := by
  cases h with
  | word _ _ hk =>
    refine absurd (List.mem_cons.mpr ?_) hkind
    exact hk.imp id mem_keywordKinds
  | space hne hall => exact Or.inr (Or.inl ⟨rfl, hne, hall⟩)
  | atSign hname => exact Or.inr (Or.inr (Or.inl ⟨_, rfl, hname⟩))
  | _ => simp

/-- The piece of a line break holds nothing else. -/
theorem eq_newline (h : p.Sound) (hkind : p.kind = .newline) : p = lineBreak := by
  have := h.not_word (by rw [hkind]; decide)
  grind

/-- The piece of an opening brace holds nothing else. -/
theorem eq_leftBrace (h : p.Sound) (hkind : p.kind = .leftBrace) : p = ⟨.leftBrace, ['{']⟩ := by
  have := h.not_word (by rw [hkind]; decide)
  grind [lineBreak]

/-- The piece of a closing brace holds nothing else. -/
theorem eq_rightBrace (h : p.Sound) (hkind : p.kind = .rightBrace) :
    p = ⟨.rightBrace, ['}']⟩ := by
  have := h.not_word (by rw [hkind]; decide)
  grind [lineBreak]

/-- The piece of a double quote holds nothing else. -/
theorem eq_quote (h : p.Sound) (hkind : p.kind = .quote) : p = ⟨.quote, ['"']⟩ := by
  have := h.not_word (by rw [hkind]; decide)
  grind [lineBreak]

/-- The piece of a number sign holds nothing else. -/
theorem eq_hash (h : p.Sound) (hkind : p.kind = .hash) : p = ⟨.hash, ['#']⟩ := by
  have := h.not_word (by rw [hkind]; decide)
  grind [lineBreak]

/-- The piece of an at sign may hold a name after it. -/
theorem eq_at (h : p.Sound) (hkind : p.kind = .at) :
    ∃ name, p = ⟨.at, '@' :: name⟩ ∧ name.all Text.isName = true := by
  have := h.not_word (by rw [hkind]; decide)
  grind [lineBreak]

/-- The piece of white space is a run of horizontal white space. -/
theorem of_space (h : p.Sound) (hkind : p.kind = .space) :
    p.text ≠ [] ∧ p.text.all isHorizontal = true := by
  have := h.not_word (by rw [hkind]; decide)
  grind [lineBreak]

end Sound

end PromptScript.Piece
