import PromptScript.Proofs.Lexing.Walk

/-!
# What leads lines

Comments, headers and statements lead lines. Wherever a line begins outside the bodies of references
and its first pieces are those of such a construct, the lexer finds it there, and it finds none
anywhere else.
-/

namespace PromptScript

open Piece (scan isHorizontal)

/-- Whether pieces are the white space that a line may begin with. -/
inductive Piece.IsIndent : List Piece → Prop
  | none : IsIndent []
  | space {p : Piece} (h : p.kind = .space) : IsIndent [p]

/-- Whether a stretch is one of a construct that leads lines. -/
def Stretch.IsLeading : Stretch → Prop
  | .token kind _ => kind = .sectionKeyword ∨ kind = .statementKeyword
  | .comment _ => True
  | .gap _ => False

namespace Lexer

open Piece (IsIndent)

/-- A header as pieces: a word that heads sections, white space if any, and a colon. -/
inductive IsHeader : List Piece → Prop
  | mk {word colon : Piece} {space : List Piece} (hword : word.kind = .sectionWord)
      (hspace : IsIndent space) (hcolon : colon.kind = .punct ∧ colon.text = [':']) :
      IsHeader (word :: (space ++ [colon]))

/-- The keyword of a statement as pieces: one word, or two with white space between them. -/
inductive IsKeyword : List Piece → Prop
  | one {word : Piece}
      (hword : word.kind = .ifWord ∨ word.kind = .elseWord ∨ word.kind = .endWord) :
      IsKeyword [word]
  | two {word space next : Piece} (hspace : space.kind = .space)
      (hwords : (word.kind = .forWord ∧ next.kind = .eachWord) ∨
        (word.kind = .callWord ∧ next.kind = .apiWord) ∨
          (word.kind = .onWord ∧ next.kind = .errorWord)) :
      IsKeyword [word, space, next]

/-- What leads a line after its indent, given with all the pieces that follow: the stretches that the
line begins with. A comment takes the whole line, a header is a token, and a statement is a token and
the rest of the line, if there is any. -/
inductive Opening (indent : List Piece) : List Piece → List Stretch → Prop
  | comment {hash : Piece} {more : List Piece} (h : hash.kind = .hash) :
      Opening indent (hash :: more)
        [.comment (Text.cutLine (Piece.join (indent ++ hash :: more))).1]
  | header {words more : List Piece} (h : IsHeader words) :
      Opening indent (words ++ more)
        (Stretch.ofText .text (Piece.join indent) ++ [.token .sectionKeyword (Piece.join words)])
  | statement {words more : List Piece} (h : IsKeyword words) :
      Opening indent (words ++ more)
        (Stretch.ofText .text (Piece.join indent) ++
          .token .statementKeyword (Piece.join words) ::
            Stretch.ofText .text (Text.cutLine (Piece.join more)).1)

/-- The white space in front of pieces is an indent. -/
theorem exists_indent (ps : List Piece) : ∃ indent, ps = indent ++ (splitSpace ps).2 ∧
    IsIndent indent ∧ Piece.join indent = (splitSpace ps).1 := by
  cases ps with
  | nil => exact ⟨[], rfl, .none, rfl⟩
  | cons p rest =>
    rw [splitSpace]
    split
    · rename_i hspace
      exact ⟨[p], rfl, .space hspace, by simp⟩
    · exact ⟨[], rfl, .none, rfl⟩

/-- Past an indent the lexer finds what leads the line. -/
theorem splitSpace_indent {indent lead : List Piece} (h : IsIndent indent)
    (hlead : ∀ p ∈ lead.head?, p.kind ≠ .space) :
    splitSpace (indent ++ lead) = (Piece.join indent, lead) := by
  cases h with
  | none =>
    cases lead with
    | nil => rfl
    | cons p lead => simp [splitSpace, hlead p rfl]
  | space hspace => simp [splitSpace, hspace]

/-- The lexer finds a header exactly where its pieces are. -/
theorem header?_eq_some_iff {ps after : List Piece} {text : Text} :
    header? ps = some (text, after) ↔
      ∃ words, ps = words ++ after ∧ IsHeader words ∧ Piece.join words = text := by
  constructor
  · intro h
    cases ps with
    | nil => cases h
    | cons word rest =>
      obtain ⟨space, hrest, hspace, hjoin⟩ := exists_indent rest
      rw [header?] at h
      split at h
      · rename_i hword
        split at h
        · rename_i text colon tail hsplit
          rw [hsplit] at hrest hjoin
          split at h
          · rename_i hcolon
            cases h
            refine ⟨_, ?_, .mk hword hspace hcolon, ?_⟩
            · simp [hrest]
            · simp [hjoin]
          · cases h
        · cases h
      · cases h
  · rintro ⟨words, rfl, hheader, rfl⟩
    obtain @⟨word, colon, space, hword, hspace, hcolon⟩ := hheader
    have hsplit : splitSpace (space ++ colon :: after) = (Piece.join space, colon :: after) :=
      splitSpace_indent hspace (by simp [hcolon.1])
    simp [header?, hword, hcolon, hsplit]

/-- The lexer finds a statement exactly where the pieces of its keyword are. -/
theorem statement?_eq_some_iff {ps after : List Piece} {text : Text} :
    statement? ps = some (text, after) ↔
      ∃ words, ps = words ++ after ∧ IsKeyword words ∧ Piece.join words = text := by
  constructor
  · intro h
    unfold statement? at h
    split at h
    · cases h
    · rename_i word rest
      split at h
      · rename_i hword
        cases h
        exact ⟨[word], rfl, .one hword, by simp⟩
      · split at h
        · rename_i second space next tail hsecond
          split at h
          · rename_i hkinds
            cases h
            obtain ⟨hspace, hnext⟩ := hkinds
            refine ⟨[word, space, next], rfl, .two hspace ?_, by simp⟩
            rw [hnext]
            unfold secondWord? at hsecond
            split at hsecond <;> simp_all
          · cases h
        · cases h
  · rintro ⟨words, rfl, hkeyword, rfl⟩
    cases hkeyword with
    | one hword => simp [statement?, hword]
    | two hspace hwords =>
      rcases hwords with ⟨hword, hnext⟩ | ⟨hword, hnext⟩ | ⟨hword, hnext⟩
      all_goals simp [statement?, secondWord?, hspace, hword, hnext]

variable {ls : Bool} {before : Option Char} {rest after : Text} {ss : List Stretch}

/-- A line that begins with a comment is one. -/
theorem Phrase.of_startsComment (h : Phrase true before rest ss ls after)
    (hcomment : startsComment (scan rest) = true) : ss = [.comment (Text.cutLine rest).1] := by
  have hnot (hleads : Leads before (scan rest)) : False := by
    rw [(atStart_of_leads hleads).2] at hcomment
    cases hcomment
  cases h with
  | comment => rfl
  | indent _ hspace hleads =>
    rw [not_startsComment_of_leads hspace hleads] at hcomment
    cases hcomment
  | header h => exact (hnot (Or.inl (Option.isSome_of_eq_some h))).elim
  | statement h => exact (hnot (Or.inr (Or.inl (Option.isSome_of_eq_some h)))).elim
  | reference _ _ hstart => exact (hnot (Or.inr (Or.inr hstart))).elim
  | text _ hline =>
    have hopens := hline rfl
    simp [opensLine, hcomment] at hopens

/-- White space before a construct or a reference is a phrase of its own. -/
theorem Phrase.of_indent {space lead : Text}
    (h : Phrase true before (space ++ lead) ss ls after) (hne : space ≠ [])
    (hspace : space.all isHorizontal = true) (hleads : Leads space.getLast? (scan lead)) :
    ss = [.token .text space] ∧ ls = true ∧ after = lead := by
  have hnot : ¬Leads before (scan (space ++ lead)) := not_leads_of_isHorizontal hne hspace
  generalize hrest : space ++ lead = rest at h hnot
  cases h with
  | comment hcomment =>
    rw [← hrest, not_startsComment_of_leads hspace hleads] at hcomment
    cases hcomment
  | @indent _ other lead' _ hother hleads' =>
    have hstops := stops_isHorizontal_of_leads hleads
    have hstops' := stops_isHorizontal_of_leads hleads'
    have hsame : space = other := by
      rw [← Piece.takeWhile_append_of_stops hspace hstops, hrest,
        Piece.takeWhile_append_of_stops hother hstops']
    subst hsame
    exact ⟨rfl, rfl, (List.append_cancel_left hrest).symm⟩
  | header h => exact (hnot (Or.inl (Option.isSome_of_eq_some h))).elim
  | statement h => exact (hnot (Or.inr (Or.inl (Option.isSome_of_eq_some h)))).elim
  | reference _ _ hstart => exact (hnot (Or.inr (Or.inr hstart))).elim
  | text _ hline =>
    have hopens := opensLine_of_leads hne hspace hleads
    rw [hrest, hline rfl] at hopens
    cases hopens

/-- A header or a statement at the very start of a line is a phrase. -/
theorem Phrase.of_leads (h : Phrase true before rest ss ls after)
    (hleads : (header? (scan rest)).isSome = true ∨ (statement? (scan rest)).isSome = true) :
    (∃ text, header? (scan rest) = some (text, scan after) ∧
        ss = [.token .sectionKeyword text]) ∨
      ∃ text mid, statement? (scan rest) = some (text, scan mid) ∧
        ss = .token .statementKeyword text :: Stretch.ofText .text (Text.cutLine mid).1 := by
  have hstart : Leads before (scan rest) := hleads.imp_right Or.inl
  cases h with
  | comment hcomment =>
    rw [(atStart_of_leads hstart).2] at hcomment
    cases hcomment
  | indent hne hspace => exact absurd hstart (not_leads_of_isHorizontal hne hspace)
  | @header _ _ text _ h => exact Or.inl ⟨text, h, rfl⟩
  | @statement _ _ text mid h => exact Or.inr ⟨text, mid, h, rfl⟩
  | reference _ _ hreference =>
    obtain ⟨hheader, hstatement⟩ := not_leads_of_startsReference hreference
    simp [hheader, hstatement] at hleads
  | text _ hline =>
    have hopens := hline rfl
    rw [opensLine, (atStart_of_leads hstart).1] at hopens
    rcases hleads with hleads | hleads <;> simp [hleads] at hopens

/-- A header at the very start of a line is the first stretch. -/
theorem Phrases.of_header? {text : Text} {more : List Piece} (h : Phrases true before rest ss)
    (hheader : header? (scan rest) = some (text, more)) : [.token .sectionKeyword text] <+: ss := by
  cases h with
  | nil => simp [header?] at hheader
  | cons hphrase _ =>
    rcases hphrase.of_leads (Or.inl (Option.isSome_of_eq_some hheader)) with
      ⟨found, hfound, rfl⟩ | ⟨found, mid, hfound, -⟩
    · rw [hheader] at hfound
      cases hfound
      exact List.prefix_append _ _
    · rw [header?_of_statement? (Option.isSome_of_eq_some hfound)] at hheader
      cases hheader

/-- A statement at the very start of a line is the first stretch, and the rest of its line the next
one. -/
theorem Phrases.of_statement? {text : Text} {more : List Piece} (h : Phrases true before rest ss)
    (hstatement : statement? (scan rest) = some (text, more)) :
    .token .statementKeyword text :: Stretch.ofText .text (Text.cutLine (Piece.join more)).1 <+: ss := by
  cases h with
  | nil => simp [statement?] at hstatement
  | cons hphrase _ =>
    rcases hphrase.of_leads (Or.inr (Option.isSome_of_eq_some hstatement)) with
      ⟨found, hfound, -⟩ | ⟨found, mid, hfound, rfl⟩
    · rw [header?_of_statement? (Option.isSome_of_eq_some hstatement)] at hfound
      cases hfound
    · rw [hstatement] at hfound
      cases hfound
      rw [Piece.join_scan]
      exact List.prefix_append _ _

/-- Past the indent of a header or a statement a line goes on as if it began there. -/
theorem Phrases.of_indent {indent lead : List Piece} (h : Phrases true before rest ss)
    (hscan : scan rest = indent ++ lead) (hindent : IsIndent indent)
    (hlead : (header? lead).isSome = true ∨ (statement? lead).isSome = true) :
    ∃ next ts, ss = Stretch.ofText .text (Piece.join indent) ++ ts ∧
      Phrases true next (Piece.join lead) ts ∧ lead = scan (Piece.join lead) := by
  obtain ⟨hrest, hafter⟩ := Piece.eq_append_of_scan hscan
  cases hindent with
  | none =>
    rw [Piece.join_nil, List.nil_append] at hrest
    subst hrest
    exact ⟨before, ss, rfl, h, hafter⟩
  | @space p hkind =>
    have hp : p.Sound := Piece.sound_of_mem_scan (by rw [hscan]; exact List.mem_cons_self)
    obtain ⟨hne, hspace⟩ := hp.of_space hkind
    rw [Piece.join_cons, Piece.join_nil, List.append_nil] at hrest ⊢
    subst hrest
    have hleads : Leads p.text.getLast? (scan (Piece.join lead)) := by
      rw [← hafter]
      exact hlead.imp_right Or.inl
    generalize hall : p.text ++ Piece.join lead = all at h
    cases h with
    | nil => exact absurd (List.append_eq_nil_iff.mp hall).1 hne
    | @cons _ _ _ _ _ _ ts hphrase hts =>
      subst hall
      obtain ⟨rfl, rfl, rfl⟩ := hphrase.of_indent hne hspace hleads
      refine ⟨_, ts, ?_, hts, hafter⟩
      rw [Stretch.ofText, if_neg (by simpa using hne)]

/-- A line begins with the stretches of what leads it. -/
theorem Phrases.of_opening {indent lead : List Piece} {opening : List Stretch}
    (h : Phrases true before rest ss) (hscan : scan rest = indent ++ lead)
    (hindent : IsIndent indent) (hopening : Opening indent lead opening) : opening <+: ss := by
  cases hopening with
  | @comment hash more hhash =>
    have hcomment : startsComment (scan rest) = true := by
      rw [hscan, startsComment, splitSpace_indent hindent (by simp [hhash])]
      simp [hhash]
    rw [← hscan, Piece.join_scan]
    cases h with
    | nil => simp [startsComment, splitSpace] at hcomment
    | cons hphrase _ =>
      rw [hphrase.of_startsComment hcomment]
      exact List.prefix_append _ _
  | @header words more hwords =>
    have hheader : header? (words ++ more) = some (Piece.join words, more) :=
      header?_eq_some_iff.mpr ⟨words, rfl, hwords, rfl⟩
    obtain ⟨next, ts, rfl, hts, hlead⟩ :=
      h.of_indent hscan hindent (Or.inl (Option.isSome_of_eq_some hheader))
    rw [hlead] at hheader
    exact List.prefix_append_right_inj _ |>.mpr (hts.of_header? hheader)
  | @statement words more hwords =>
    have hstatement : statement? (words ++ more) = some (Piece.join words, more) :=
      statement?_eq_some_iff.mpr ⟨words, rfl, hwords, rfl⟩
    obtain ⟨next, ts, rfl, hts, hlead⟩ :=
      h.of_indent hscan hindent (Or.inr (Option.isSome_of_eq_some hstatement))
    rw [hlead] at hstatement
    exact List.prefix_append_right_inj _ |>.mpr (hts.of_statement? hstatement)

/-- Whether after some stretches of a script, outside the bodies of references, a line begins that a
construct leads, and the stretches that the line begins with. -/
def IsOpened (source : Text) (passed opening : List Stretch) : Prop :=
  (Stretch.join passed = [] ∨ Text.endsLine (Stretch.join passed) = true) ∧
    ¬Token.InBody (Stretch.tokens .start passed) ∧
      ∃ indent lead, scan source = scan (Stretch.join passed) ++ (indent ++ lead) ∧
        IsIndent indent ∧ Opening indent lead opening

variable {source : Text} {passed more opening x y : List Stretch} {s : Stretch} {lineStart : Bool}

/-- Where a construct leads a line, the stretches of the script go on with its own. -/
theorem IsOpened.isPrefix (h : IsOpened source passed opening)
    (hss : Phrases true none source (passed ++ more)) : opening <+: more := by
  obtain ⟨hline, hbody, indent, lead, hscan, hindent, hopening⟩ := h
  obtain ⟨hsource, hlines⟩ := Piece.eq_append_of_scan hscan
  rw [Piece.join_scan] at hsource
  subst hsource
  obtain ⟨x, y, heq, hx, hwalk⟩ := hss.exists_line hline
  obtain ⟨rfl, rfl⟩ := Stretch.append_inj_of_join heq hx.symm hss.isWithinLine
  exact (hwalk.resolve_left hbody).2.of_opening hlines.symm hindent hopening

/-- Nothing in a body leads a line. -/
theorem Body.not_isLeading {depth : Nat} (h : Body depth rest ss after) : ∀ s ∈ ss, ¬s.IsLeading := by
  induction h with
  | close => simp [Stretch.IsLeading]
  | leave _ _ ih | enter _ ih | fragment _ _ _ ih =>
    exact List.forall_mem_cons.mpr ⟨by simp [Stretch.IsLeading], ih⟩

/-- Nothing that follows a target leads a line. -/
theorem Tail.not_isLeading {body : Option Text} (h : Tail rest ss body after) :
    ∀ s ∈ ss, ¬s.IsLeading := by
  have hgap (space : Text) : ∀ s ∈ Stretch.ofGap space, ¬s.IsLeading := by
    cases space <;> simp [Stretch.ofGap, Stretch.IsLeading]
  cases h with
  | bare => simp
  | unclosed => exact List.forall_mem_append.mpr ⟨hgap _, by simp [Stretch.IsLeading]⟩
  | braced _ hbody _ =>
    exact List.forall_mem_append.mpr ⟨hgap _,
      List.forall_mem_cons.mpr ⟨by simp [Stretch.IsLeading], hbody.not_isLeading⟩⟩

/-- Nothing that follows a name leads a line. -/
theorem Attachment.not_isLeading {colon : Bool} {target body : Option Text}
    (h : Attachment colon rest ss target body after) : ∀ s ∈ ss, ¬s.IsLeading := by
  cases h with
  | target _ htail =>
    exact List.forall_mem_cons.mpr ⟨by simp [Stretch.IsLeading], htail.not_isLeading⟩
  | unclosed => simp [Stretch.IsLeading]
  | plain _ htail => exact htail.not_isLeading

/-- A construct that leads lines is the first stretch of its phrase, read where only white space was
seen on the line. -/
theorem Phrase.of_isLeading (h : Phrase lineStart before rest (x ++ s :: y) ls after)
    (hs : s.IsLeading) : lineStart = true ∧ x = [] ∧
      (startsComment (scan rest) = true ∧ s = .comment (Text.cutLine rest).1 ∧ y = [] ∨
        (∃ text, header? (scan rest) = some (text, scan after) ∧
          s = .token .sectionKeyword text ∧ y = []) ∨
          ∃ text mid, statement? (scan rest) = some (text, scan mid) ∧
            s = .token .statementKeyword text ∧ y = Stretch.ofText .text (Text.cutLine mid).1) := by
  generalize hss : x ++ s :: y = ss at h
  have hmem : s ∈ ss := hss ▸ List.mem_append_right x List.mem_cons_self
  have hfirst {t : Stretch} {ts : List Stretch} (heq : x ++ s :: y = t :: ts)
      (hts : ∀ u ∈ ts, ¬u.IsLeading) : x = [] ∧ s = t ∧ y = ts := by
    cases x with
    | nil => exact ⟨rfl, (List.cons.inj heq).1, (List.cons.inj heq).2⟩
    | cons z x =>
      have hmem : s ∈ ts := (List.cons.inj heq).2 ▸ List.mem_append_right x List.mem_cons_self
      exact absurd hs (hts s hmem)
  cases h with
  | comment h =>
    obtain ⟨rfl, rfl, rfl⟩ := hfirst hss (by simp)
    exact ⟨rfl, rfl, Or.inl ⟨h, rfl, rfl⟩⟩
  | indent | text =>
    rw [List.mem_singleton.mp hmem] at hs
    simp [Stretch.IsLeading] at hs
  | @header _ _ text _ h =>
    obtain ⟨rfl, rfl, rfl⟩ := hfirst hss (by simp)
    exact ⟨rfl, rfl, Or.inr (Or.inl ⟨text, h, rfl, rfl⟩)⟩
  | @statement _ _ text mid h =>
    have hrest : ∀ u ∈ Stretch.ofText .text (Text.cutLine mid).1, ¬u.IsLeading := by
      unfold Stretch.ofText
      split <;> simp [Stretch.IsLeading]
    obtain ⟨rfl, rfl, rfl⟩ := hfirst hss hrest
    exact ⟨rfl, rfl, Or.inr (Or.inr ⟨text, mid, h, rfl, rfl⟩)⟩
  | @reference _ _ name _ _ _ _ _ _ _ _ h =>
    rcases List.mem_cons.mp hmem with rfl | hmem
    · simp [Stretch.IsLeading] at hs
    · rcases List.mem_append.mp hmem with hmem | hmem
      · cases name with
        | nil => cases hmem
        | cons c name =>
          rw [List.mem_singleton.mp hmem] at hs
          simp [Stretch.IsLeading] at hs
      · exact absurd hs (h.not_isLeading s hmem)

/-- Where a comment begins, a line does. -/
theorem Walk.endsLine_of_startsComment (h : Walk source passed true rest)
    (hcomment : startsComment (scan rest) = true) :
    Stretch.join passed = [] ∨ Text.endsLine (Stretch.join passed) = true := by
  rcases h.cases_of_lineStart rfl with hline | rfl | ⟨front, space, rfl, -, -, hleads, -⟩
  · exact hline
  · simp [startsComment, splitSpace] at hcomment
  · rw [(atStart_of_leads hleads).2] at hcomment
    cases hcomment

/-- The white space before a header or a statement is the indent of its line. -/
theorem Walk.exists_indent (h : Walk source passed true rest)
    (hlead : (header? (scan rest)).isSome = true ∨ (statement? (scan rest)).isSome = true) :
    ∃ front indent, passed = front ++ Stretch.ofText .text (Piece.join indent) ∧
      IsIndent indent ∧ (Stretch.join front = [] ∨ Text.endsLine (Stretch.join front) = true) ∧
        ¬Token.InBody (Stretch.tokens .start front) ∧
          scan source = scan (Stretch.join front) ++ (indent ++ scan rest) := by
  have hbalanced := h.isBalanced
  have hjoin := h.join
  rcases h.cases_of_lineStart rfl with hline | rfl | ⟨front, space, rfl, hne, hspace, hleads, hline⟩
  · refine ⟨passed, [], by simp [Stretch.ofText], .none, hline, hbalanced.not_inBody, ?_⟩
    rw [← hjoin, Piece.scan_append_of_endsLine hline]
    rfl
  · simp [header?, statement?] at hlead
  · refine ⟨front, [⟨.space, space⟩], ?_, .space rfl, hline, ?_, ?_⟩
    · simp [Stretch.ofText, hne]
    · rw [Stretch.tokens_append] at hbalanced
      simpa [Token.IsBalanced, Token.InBody, Stretch.tokens] using hbalanced.symm.le
    · rw [← hjoin, Stretch.join_append, List.append_assoc, Piece.scan_append_of_endsLine hline]
      have hscan := Piece.scan_space hne hspace (stops_isHorizontal_of_leads hleads)
      simpa [Stretch.text] using hscan

/-- Every construct that leads lines stands where it leads one. -/
theorem Phrases.isOpened (h : Phrases true none source (x ++ s :: y)) (hs : s.IsLeading) :
    ∃ passed opening u v more, IsOpened source passed opening ∧ opening = u ++ s :: v ∧
      x = passed ++ u ∧ y = v ++ more := by
  obtain ⟨front, ls, here, a, b, back, next, left, hwalk, hphrase, -, rfl, rfl⟩ := h.exists_phrase
  obtain ⟨rfl, rfl, hcases⟩ := hphrase.of_isLeading hs
  rw [List.append_nil]
  rcases hcases with ⟨hcomment, rfl, rfl⟩ | ⟨text, hheader, rfl, rfl⟩ | ⟨text, mid, hstatement, rfl, rfl⟩
  · have hline := hwalk.endsLine_of_startsComment hcomment
    obtain ⟨indent, hhere, hindent, -⟩ := Lexer.exists_indent (scan here)
    cases hlead : (splitSpace (scan here)).2 with
    | nil =>
      rw [startsComment, hlead] at hcomment
      cases hcomment
    | cons hash rest =>
      rw [startsComment, hlead] at hcomment
      rw [hlead] at hhere
      have hopening : Opening indent (hash :: rest) _ := .comment (by simpa using hcomment)
      rw [← hhere, Piece.join_scan] at hopening
      refine ⟨front, _, [], [], left, ⟨hline, hwalk.isBalanced.not_inBody, indent, _, ?_, hindent,
        hopening⟩, rfl, by simp, by simp⟩
      rw [← hwalk.join, Piece.scan_append_of_endsLine hline, ← hhere]
  · obtain ⟨start, indent, rfl, hindent, hline, hbody, hscan⟩ :=
      hwalk.exists_indent (Or.inl (Option.isSome_of_eq_some hheader))
    obtain ⟨words, hwords, hheads, rfl⟩ := header?_eq_some_iff.mp hheader
    rw [hwords] at hscan
    exact ⟨start, _, _, [], left, ⟨hline, hbody, indent, _, hscan, hindent, .header hheads⟩, rfl, rfl,
      rfl⟩
  · obtain ⟨start, indent, rfl, hindent, hline, hbody, hscan⟩ :=
      hwalk.exists_indent (Or.inr (Option.isSome_of_eq_some hstatement))
    obtain ⟨words, hwords, hkeyword, rfl⟩ := statement?_eq_some_iff.mp hstatement
    have hopening : Opening indent (_ ++ scan mid) _ := .statement hkeyword
    rw [Piece.join_scan] at hopening
    rw [hwords] at hscan
    exact ⟨start, _, _, _, left, ⟨hline, hbody, indent, _, hscan, hindent, hopening⟩, rfl, rfl, rfl⟩

end Lexer

/-- Every line of a script begins where one of its stretches begins. Comments, headers and statements
are recognised wherever they lead a line outside the bodies of references, and nowhere else. -/
theorem constructs_lead_lines (source : Text) :
    ∃ ss, Stretch.Tiles source ss (Token.ofText source) ∧
      (∀ front lines, source = front ++ lines → (front = [] ∨ Text.endsLine front = true) →
        ∃ x y, ss = x ++ y ∧ Stretch.join x = front) ∧
      (∀ x y opening, ss = x ++ y → Lexer.IsOpened source x opening → opening <+: y) ∧
      ∀ x s y, ss = x ++ s :: y → s.IsLeading → ∃ passed opening u v more,
        Lexer.IsOpened source passed opening ∧ opening = u ++ s :: v ∧ x = passed ++ u ∧
          y = v ++ more := by
  obtain ⟨ss, hss, htiles⟩ := Lexer.exists_tiling source
  refine ⟨ss, htiles, ?_, ?_, ?_⟩
  · rintro front lines rfl hfront
    obtain ⟨x, y, hxy, hx, -⟩ := hss.exists_line hfront
    exact ⟨x, y, hxy, hx⟩
  · rintro x y opening rfl hopened
    exact hopened.isPrefix hss
  · rintro x s y rfl hs
    exact hss.isOpened hs

end PromptScript
