import PromptScript.Proofs.Lexing.Lookahead

/-!
# The lexer over offsets tracks the lexer over pieces

The pieces before the cursor are those taken, and the offset is the end of their text. While that
holds, no check fails when the lexer over offsets gives a token: it gives the token that the lexer
over pieces gives, moves past the pieces that were taken, and tracks the other again.

Two places need more than that. Right past an at sign with a name glued to it the cursor is still
at the piece of the at sign. And in a body the pieces ahead close the braces that are open: this was
looked up when the body was opened, and each brace that is passed keeps it.
-/

namespace PromptScript

open Piece (join)
open Text (byteLength slice?)

/-- What a mode of the lexer over pieces says about the pieces ahead: no name is left out of them,
and in a body they close the braces that are open. -/
def Lexer.Mode.Stands : Lexer.Mode → List Piece → Prop
  | .afterAt name, _ => name = []
  | .body depth, ps => 1 ≤ depth ∧ Lexer.closes depth ps = true
  | _, _ => True

/-- The pieces up to the offset that ends some of them. -/
theorem Lexeme.length_takeWhile_stop {taken after : List Piece} (start : Nat)
    (hsound : ∀ p ∈ taken ++ after, p.Sound) :
    ((ofPieces start (taken ++ after)).takeWhile
      (·.stop ≤ start + byteLength (join taken))).length = taken.length := by
  induction taken generalizing start with
  | nil =>
    cases after with
    | nil => rfl
    | cons p after =>
      have hpos := Text.byteLength_pos (hsound p (by simp)).ne_nil
      have hnot : ¬ (start + byteLength p.text ≤ start) := by omega
      simp [hnot]
  | cons p taken ih =>
    have hmore := ih (start + byteLength p.text) fun q hq => hsound q (by simp_all)
    simp only [List.cons_append, ofPieces_cons, Piece.join_cons, Text.byteLength_append,
      ← Nat.add_assoc]
    rw [List.takeWhile_cons_of_pos (by simp), List.length_cons, hmore, List.length_cons]

namespace CheckedLexer

/-- The mode of the lexer over offsets for one of the lexer over pieces. -/
def Mode.of : Lexer.Mode → Mode
  | .text => .text
  | .afterAt _ => .afterAt
  | .afterName => .afterName
  | .afterTarget => .afterTarget
  | .body depth => .body depth
  | .statement => .statement
  | .done => .done

/-- The lexer moved past pieces. -/
def past (m : CheckedLexer) (taken : List Piece) : CheckedLexer :=
  { m with
    place := m.place.advance (join taken)
    pos := m.pos + byteLength (join taken)
    cursor := m.cursor + taken.length }

/-- The lexer over offsets tracks the lexer over pieces past those taken. -/
structure Tracks (m : CheckedLexer) (l : Lexer) (front : List Piece) : Prop
    extends m.Over (front ++ l.pieces) where
  /-- The cursor is past the pieces taken. -/
  cursor_eq : m.cursor = front.length
  /-- The offset is the end of their text. -/
  pos_eq : m.pos = byteLength (join front)
  /-- Both are at the same place. -/
  place_eq : m.place = l.place
  /-- Both have seen the same of the line. -/
  lineStart_eq : m.lineStart = l.lineStart
  /-- The character just passed is the last of the text of the pieces taken. -/
  before_eq : l.before = (join front).getLast?

/-- The lexer over offsets stands for the lexer over pieces. -/
inductive Matches : CheckedLexer → Lexer → Prop
  | tracks {m : CheckedLexer} {l : Lexer} {front : List Piece} (h : m.Tracks l front)
      (hmode : m.mode = .of l.mode) (hstands : l.mode.Stands l.pieces) : Matches m l
  | glued {m : CheckedLexer} {l : Lexer} {front : List Piece} {c : Char} {name : Text}
      (hmode : m.mode = .afterAt) (hname : l.mode = .afterAt (c :: name))
      (hover : m.Over (front ++ ⟨.at, '@' :: c :: name⟩ :: l.pieces))
      (hcursor : m.cursor = front.length) (hpos : m.pos = byteLength (join front) + 1)
      (hplace : m.place = l.place) (hlineStart : m.lineStart = l.lineStart) : Matches m l

/-- A checked step gives the token that the lexer over pieces gives, and stands for it again. Only
the token for the end leaves the offset as it is. -/
def Gives (m : CheckedLexer) (r : Option (Token × CheckedLexer)) (result : Token × Lexer) : Prop :=
  ∃ after, r = some (result.1, after) ∧ Matches after result.2 ∧ after.source = m.source ∧
    (result.1.kind = .eof ∧ after.mode = .done ∨ result.1.kind ≠ .eof ∧ m.pos < after.pos)

/-- What is given past pieces is given from before them. -/
theorem Gives.of_past {m : CheckedLexer} {taken : List Piece} {r : Option (Token × CheckedLexer)}
    {result : Token × Lexer} (h : Gives (m.past taken) r result) : Gives m r result := by
  obtain ⟨after, hr, hmatches, hsource, hprogress⟩ := h
  refine ⟨after, hr, hmatches, hsource, hprogress.imp id fun h => ⟨h.1, ?_⟩⟩
  exact Nat.lt_of_le_of_lt (Nat.le_add_right m.pos _) h.2

variable {m : CheckedLexer} {l : Lexer} {front taken after : List Piece}

/-- The lexer is moved past what is a slice. -/
theorem advanceTo?_of_slice? {stop count : Nat} {text : Text}
    (hslice : slice? m.source m.pos stop = some text)
    (hended : ((m.raw.drop m.cursor).takeWhile (·.stop ≤ stop)).length = count) :
    m.advanceTo? stop = some { m with
      place := m.place.advance text, pos := stop, cursor := m.cursor + count } := by
  rw [advanceTo?, hslice, Option.bind_eq_bind, Option.bind_some]
  simp only [hended]

/-- What is a slice is emitted. -/
theorem emit?_of_slice? {stop count : Nat} {text : Text} (kind : Token.Kind)
    (hslice : slice? m.source m.pos stop = some text)
    (hended : ((m.raw.drop m.cursor).takeWhile (·.stop ≤ stop)).length = count) :
    m.emit? kind stop = some (⟨kind, text, m.place⟩, { m with
      place := m.place.advance text, pos := stop, cursor := m.cursor + count }) := by
  rw [emit?, hslice, advanceTo?_of_slice? hslice hended]
  rfl

namespace Tracks

/-- The piece at the cursor. -/
theorem over_cons (h : m.Tracks l front) {p : Piece} {rest : List Piece}
    (hpieces : l.pieces = p :: rest) : m.Over (front ++ p :: rest) :=
  hpieces ▸ h.toOver

/-- The script ends where the text of the pieces ahead does. -/
theorem byteLength_source (h : m.Tracks l front) :
    byteLength m.source = m.pos + byteLength (join l.pieces) := by
  rw [h.source_eq, Piece.join_append, Text.byteLength_append, h.pos_eq]

/-- The text of pieces at the cursor is a slice, and they are the pieces that end in it. -/
theorem slice?_eq (h : m.Tracks l front) (hpieces : l.pieces = taken ++ after) :
    slice? m.source m.pos (m.pos + byteLength (join taken)) = some (join taken) ∧
      ((m.raw.drop m.cursor).takeWhile
        (·.stop ≤ m.pos + byteLength (join taken))).length = taken.length := by
  have hover := h.toOver
  rw [hpieces] at hover
  rw [h.cursor_eq, hover.drop_raw, h.pos_eq]
  exact ⟨hover.slice?_taken, Lexeme.length_takeWhile_stop _ fun p hp =>
    hover.sound p (List.mem_append_right front hp)⟩

/-- Moving to the end of some pieces takes them. -/
theorem advanceTo?_eq (h : m.Tracks l front) (hpieces : l.pieces = taken ++ after) :
    m.advanceTo? (m.pos + byteLength (join taken)) = some (m.past taken) :=
  advanceTo?_of_slice? (h.slice?_eq hpieces).1 (h.slice?_eq hpieces).2

/-- The checked token of some pieces is their text at the place of the lexer. -/
theorem emit?_eq (h : m.Tracks l front) (hpieces : l.pieces = taken ++ after) (kind : Token.Kind) :
    m.emit? kind (m.pos + byteLength (join taken)) =
      some (⟨kind, join taken, l.place⟩, m.past taken) := by
  rw [← h.place_eq]
  exact emit?_of_slice? kind (h.slice?_eq hpieces).1 (h.slice?_eq hpieces).2

/-- A lexer that is moved past the same pieces is tracked again. -/
theorem pass (h : m.Tracks l front) (hpieces : l.pieces = taken ++ after) :
    (m.past taken).Tracks (l.pass (join taken) after) (front ++ taken) := by
  have hover : m.Over (front ++ taken ++ after) := by
    rw [List.append_assoc, ← hpieces]
    exact h.toOver
  exact {
    source_eq := hover.source_eq
    raw_eq := hover.raw_eq
    sound := hover.sound
    cursor_eq := by rw [past, h.cursor_eq, List.length_append]
    pos_eq := by rw [past, h.pos_eq, Piece.join_append, Text.byteLength_append]
    place_eq := congrArg (Position.advance · (join taken)) h.place_eq
    lineStart_eq := h.lineStart_eq
    before_eq := by rw [Lexer.pass, h.before_eq, Piece.join_append, List.getLast?_append] }

/-- The mode makes no difference to what is tracked, nor does what was seen of the line if it is the
same for both. -/
theorem enter (h : m.Tracks l front) (mode : Mode) (lineStart : Bool) :
    (m.enter mode lineStart).Tracks { l with lineStart := lineStart } front where
  source_eq := h.source_eq
  raw_eq := h.raw_eq
  sound := h.sound
  cursor_eq := h.cursor_eq
  pos_eq := h.pos_eq
  place_eq := h.place_eq
  lineStart_eq := rfl
  before_eq := h.before_eq

/-- Tracking does not look at the mode. -/
theorem setMode (h : m.Tracks l front) (mode : Lexer.Mode) :
    m.Tracks { l with mode := mode } front where
  toOver := h.toOver
  cursor_eq := h.cursor_eq
  pos_eq := h.pos_eq
  place_eq := h.place_eq
  lineStart_eq := h.lineStart_eq
  before_eq := h.before_eq

/-- Pieces that are taken have characters. -/
theorem ne_nil_of_taken (h : m.Tracks l front) {text : Text}
    (htaken : ∃ taken, l.pieces = taken ++ after ∧ join taken = text)
    (hlt : after.length < l.pieces.length) : text ≠ [] := by
  obtain ⟨taken, hpieces, rfl⟩ := htaken
  cases taken with
  | nil =>
    rw [hpieces] at hlt
    exact absurd hlt (Nat.lt_irrefl _)
  | cons p taken => simp [(h.sound p (by simp [hpieces])).ne_nil]

/-- Past pieces that were taken, the lexer over offsets stands for the other. -/
theorem gives_past (h : m.Tracks l front) {kind : Token.Kind} (hkind : kind ≠ .eof)
    (mode : Lexer.Mode) (lineStart : Bool) (htaken : l.pieces = taken ++ after)
    (hlt : after.length < l.pieces.length) (hstands : mode.Stands after) :
    Gives m (some (⟨kind, join taken, l.place⟩, (m.past taken).enter (.of mode) lineStart))
      (l.emit kind (join taken) after mode lineStart) := by
  have hne := h.ne_nil_of_taken ⟨taken, htaken, rfl⟩ hlt
  refine ⟨_, rfl, .tracks (((h.pass htaken).enter _ _).setMode mode) rfl hstands, rfl,
    Or.inr ⟨hkind, ?_⟩⟩
  exact Nat.lt_add_of_pos_right (Text.byteLength_pos hne)

/-- A step that emits pieces gives the token that they are. -/
theorem gives (h : m.Tracks l front) {kind : Token.Kind} (hkind : kind ≠ .eof) {text : Text}
    (mode : Lexer.Mode) (hmode : m.mode = .of mode)
    (htaken : ∃ taken, l.pieces = taken ++ after ∧ join taken = text)
    (hlt : after.length < l.pieces.length) (hstands : mode.Stands after) :
    Gives m (m.emit? kind (m.pos + byteLength text))
      (l.emit kind text after mode l.lineStart) := by
  obtain ⟨taken, htaken, rfl⟩ := htaken
  have hgives := h.gives_past hkind mode l.lineStart htaken hlt hstands
  rw [← hmode, ← h.lineStart_eq] at hgives
  rw [h.emit?_eq htaken, ← h.lineStart_eq]
  exact hgives

/-- The same in another mode, or with another view of the line. -/
theorem gives_enter (h : m.Tracks l front) {kind : Token.Kind} (hkind : kind ≠ .eof) {text : Text}
    (mode : Lexer.Mode) (lineStart : Bool)
    (htaken : ∃ taken, l.pieces = taken ++ after ∧ join taken = text)
    (hlt : after.length < l.pieces.length) (hstands : mode.Stands after) :
    Gives m ((m.enter (.of mode) lineStart).emit? kind (m.pos + byteLength text))
      (l.emit kind text after mode lineStart) :=
  (h.enter (.of mode) lineStart).gives hkind mode rfl htaken hlt hstands

/-- One piece that is emitted. -/
theorem gives_piece (h : m.Tracks l front) {p : Piece} (hpieces : l.pieces = p :: after)
    {kind : Token.Kind} (hkind : kind ≠ .eof) (mode : Lexer.Mode) (lineStart : Bool)
    (hstands : mode.Stands after) :
    Gives m ((m.enter (.of mode) lineStart).emit? kind (m.pos + byteLength p.text))
      (l.emit kind p.text after mode lineStart) :=
  h.gives_enter hkind mode lineStart ⟨[p], hpieces, by simp⟩ (by simp [hpieces]) hstands

/-- White space at the cursor, and the pieces after it. -/
theorem exists_lead (h : m.Tracks l front) :
    ∃ space lead, l.pieces = space ++ lead ∧ Lexer.splitSpace l.pieces = (join space, lead) ∧
      m.skipSpace m.cursor = (front ++ space).length ∧ m.Over (front ++ space ++ lead) := by
  obtain ⟨space, lead, hpieces, hspace, hskip⟩ := h.exists_skipSpace h.cursor_eq
  refine ⟨space, lead, hpieces, hspace, hskip, ?_⟩
  rw [List.append_assoc, ← hpieces]
  exact h.toOver

/-- The offset past pieces at the cursor. -/
theorem byteLength_front (h : m.Tracks l front) (space : List Piece) :
    byteLength (join (front ++ space)) = m.pos + byteLength (join space) := by
  rw [Piece.join_append, Text.byteLength_append, h.pos_eq]

/-- At the start of a line the same constructs are found. -/
theorem gives_leading? (h : m.Tracks l front) (hmode : m.mode = .text)
    (hline : l.lineStart = true) :
    match l.leading? with
    | none => m.leading? = some none
    | some result => ∃ r, m.leading? = r.map some ∧ Gives m r result := by
  obtain ⟨space, lead, hpieces, hspace, hskip, hover⟩ := h.exists_lead
  rw [Lexer.leading?, hspace, leading?, hover.headerEnd?_eq hskip,
    hover.statementEnd?_eq hskip]
  simp only [Option.bind_eq_bind, Option.bind_some, Option.isSome_map, hover.startOf_eq hskip,
    h.byteLength_front]
  by_cases hnil : space = []
  · subst hnil
    have hcursor : ¬ m.cursor < m.skipSpace m.cursor := by
      rw [hskip, List.append_nil, h.cursor_eq]
      exact Nat.lt_irrefl _
    simp only [indents?, hcursor, if_false, Bool.false_eq_true, Piece.join_nil, List.isEmpty_nil,
      Bool.not_true, Bool.false_and, Text.byteLength_nil, Nat.add_zero, hmode, Option.bind_some]
    cases hheader : Lexer.header? lead with
    | some parts =>
      obtain ⟨text, after⟩ := parts
      refine ⟨_, rfl, h.gives_enter (by simp) .text false ?_ ?_ trivial⟩
      · exact hpieces ▸ Lexer.header?_append_eq hheader
      · exact hpieces ▸ Lexer.length_header?_lt hheader
    | none =>
      cases hstatement : Lexer.statement? lead with
      | some parts =>
        obtain ⟨text, after⟩ := parts
        refine ⟨_, rfl, h.gives_enter (by simp) .statement false ?_ ?_ trivial⟩
        · exact hpieces ▸ Lexer.statement?_append_eq hstatement
        · exact hpieces ▸ Lexer.length_statement?_lt hstatement
      | none => rfl
  · have hcursor : m.cursor < m.skipSpace m.cursor := by
      rw [hskip, h.cursor_eq, List.length_append]
      exact Nat.lt_add_of_pos_right (List.length_pos_iff.mpr hnil)
    have hlt : lead.length < l.pieces.length := by
      rw [hpieces, List.length_append]
      exact Nat.lt_add_of_pos_left (List.length_pos_iff.mpr hnil)
    have hne := h.ne_nil_of_taken ⟨space, hpieces, rfl⟩ hlt
    have hlast : (join (front ++ space)).getLast? = (join space).getLast? := by
      obtain ⟨c, hc⟩ := Option.ne_none_iff_exists'.mp (mt List.getLast?_eq_none_iff.mp hne)
      rw [Piece.join_append, List.getLast?_append, hc]
      rfl
    have hgives : Gives m (m.emit? .text (m.pos + byteLength (join space)))
        (l.emit .text (join space) lead .text true) :=
      hline ▸ h.gives (by simp) .text hmode ⟨space, hpieces, rfl⟩ hlt trivial
    have hfilled : (join space).isEmpty = false := by simpa using hne
    simp only [indents?, hcursor, if_true, hover.startsReference?_eq hskip, hlast, hfilled,
      Bool.not_false, Bool.true_and]
    cases hheader : Lexer.header? lead with
    | some parts => exact ⟨_, rfl, hgives⟩
    | none =>
      cases hstatement : Lexer.statement? lead with
      | some parts => exact ⟨_, rfl, hgives⟩
      | none =>
        cases hstart : Lexer.startsReference (join space).getLast? lead with
        | true => exact ⟨_, rfl, hgives⟩
        | false => rfl

/-- The at sign of a reference is given apart from the name glued to it. -/
theorem gives_glued (h : m.Tracks l front) {c : Char} {name : Text} {rest : List Piece}
    (hpieces : l.pieces = ⟨.at, '@' :: c :: name⟩ :: rest) :
    Gives m ((m.enter .afterAt false).emit? .referenceStart (m.pos + 1))
      (l.emit .referenceStart ['@'] rest (.afterAt (c :: name)) false) := by
  have hover := h.over_cons hpieces
  have hsize : '@'.utf8Size = 1 := rfl
  have hslice : slice? m.source m.pos (m.pos + 1) = some ['@'] := by
    rw [hover.source_eq, h.pos_eq]
    have hpart := Text.slice?_append (join front) ['@'] (c :: name ++ join rest)
    simpa [hsize] using hpart
  have hended : ((m.raw.drop m.cursor).takeWhile (·.stop ≤ m.pos + 1)).length = 0 := by
    have hpos := c.utf8Size_pos
    rw [h.cursor_eq, hover.drop_raw, Lexeme.ofPieces_cons, h.pos_eq,
      List.takeWhile_cons_of_neg, List.length_nil]
    simp only [Text.byteLength_cons, hsize, decide_eq_true_eq]
    omega
  have hemit : (m.enter .afterAt false).emit? .referenceStart (m.pos + 1) = _ :=
    emit?_of_slice? .referenceStart hslice hended
  have hplace : (m.enter .afterAt false).place = l.place := h.place_eq
  rw [hemit, hplace]
  exact ⟨_, rfl, .glued rfl rfl ⟨hover.source_eq, hover.raw_eq, hover.sound⟩ h.cursor_eq
    (congrArg (· + 1) h.pos_eq) rfl rfl, rfl,
    Or.inr ⟨by simp [Lexer.emit], Nat.lt_succ_self m.pos⟩⟩

/-- The same fragment of text ends without a failed check. -/
theorem fragmentEnd?_eq (h : m.Tracks l front) {p : Piece} {rest : List Piece}
    (hpieces : l.pieces = p :: rest)
    (hstart : Lexer.startsReference l.before (p :: rest) = false) :
    m.fragmentEnd? ⟨p.kind, m.pos, m.pos + byteLength p.text⟩ =
        some (m.pos + byteLength (Lexer.splitText l.before l.pieces).1) ∧
      (Lexer.splitText l.before l.pieces).2.length < l.pieces.length := by
  have hover := h.over_cons hpieces
  have hindex : m.cursor + 1 = (front ++ [p]).length := by simp [h.cursor_eq]
  have hpos : byteLength (join (front ++ [p])) = m.pos + byteLength p.text := by
    simp [h.pos_eq]
  have hend := hover.next.textEnd?_eq hindex
  rw [hover.getLast?_join, hpos] at hend
  have hle := Lexer.length_splitText_le p.text.getLast? rest
  rw [hpieces, fragmentEnd?, Lexer.splitText]
  simp only [hstart, Bool.false_eq_true, if_false]
  by_cases hkind : p.kind = .newline
  · simp [hkind]
  · simp only [hkind, if_false, hover.next.from?_eq hindex, hpos, Option.bind_eq_bind,
      Option.bind_some, hend, Text.byteLength_append, List.length_cons, ← Nat.add_assoc, true_and]
    exact Nat.lt_succ_of_le hle

/-- Past what counts only at the start of a line, the same token is given. -/
theorem gives_running? (h : m.Tracks l front) (hmode : m.mode = .text) {p : Piece}
    {rest : List Piece} (hpieces : l.pieces = p :: rest) :
    Gives m (m.running? ⟨p.kind, m.pos, m.pos + byteLength p.text⟩) l.running := by
  have hover := h.over_cons hpieces
  rw [running?, hover.startsReference?_eq h.cursor_eq, ← h.before_eq, Lexer.running,
    hpieces]
  simp only [Option.bind_eq_bind, Option.bind_some]
  cases hstart : Lexer.startsReference l.before (p :: rest) with
  | true =>
    obtain ⟨q, qs, heq, hkind⟩ := Lexer.exists_at_of_startsReference hstart
    obtain ⟨rfl, rfl⟩ := List.cons.inj heq
    obtain ⟨name, rfl, -⟩ := (hover.sound p (by simp)).eq_at hkind
    cases name with
    | nil => exact h.gives_piece hpieces (by simp) (.afterAt []) false rfl
    | cons c name => exact h.gives_glued hpieces
  | false =>
    obtain ⟨hstop, hlt⟩ := h.fragmentEnd?_eq hpieces hstart
    rw [← hpieces]
    simp only [Bool.false_eq_true, if_false, hstop, Option.bind_some]
    obtain ⟨taken, htaken, hjoin⟩ := Lexer.splitText_append_eq l.before l.pieces
    rw [← hjoin, h.emit?_eq htaken, Option.bind_some, ← h.lineStart_eq]
    have hgives := h.gives_past (show Token.Kind.text ≠ .eof by simp) .text
      (Text.endsLine (join taken) || (m.lineStart && Text.isBlank (join taken))) htaken hlt trivial
    rw [show Mode.of .text = (m.past taken).mode from hmode.symm] at hgives
    exact hgives

end Tracks

end CheckedLexer

end PromptScript
