import PromptScript.Proofs.Lexing.Tracking

/-!
# Every step of the lexer over offsets

In each mode a checked step gives the token of the lexer over pieces. A step that passes through
several modes, and one that passes comments, comes to an end, so the checked run over a script
gives its tokens.
-/

namespace PromptScript.CheckedLexer

open Piece (join)
open Text (byteLength slice?)

variable {m : CheckedLexer} {l : Lexer} {front rest : List Piece} {p : Piece}

namespace Tracks

/-- The entry at the cursor is that of the next piece, from the lexer's offset on. -/
theorem getElem?_cursor (h : m.Tracks l front) (hpieces : l.pieces = p :: rest) :
    m.raw[m.cursor]? = some ⟨p.kind, m.pos, m.pos + byteLength p.text⟩ := by
  rw [(h.over_cons hpieces).getElem?_raw_cons h.cursor_eq, h.pos_eq]

/-- At the end of the pieces the cursor is past the entries. -/
theorem getElem?_cursor_nil (h : m.Tracks l front) (hpieces : l.pieces = []) :
    m.raw[m.cursor]? = none := by
  have hover := h.toOver
  rw [hpieces, List.append_nil] at hover
  exact hover.getElem?_raw_nil h.cursor_eq

/-- The kind at the cursor is that of the next piece. -/
theorem is_cursor (h : m.Tracks l front) (kind : Piece.Kind) :
    m.is m.cursor kind = l.pieces.head?.any (·.kind == kind) :=
  h.is_eq h.cursor_eq kind

/-- The end of a script is emitted once. -/
theorem gives_eof (h : m.Tracks l front) (hpieces : l.pieces = []) :
    Gives m ((m.enter .done m.lineStart).emit? .eof m.pos) l.running := by
  have htaken : l.pieces = [] ++ [] := hpieces
  have hemit := (h.enter .done m.lineStart).emit?_eq htaken .eof
  rw [Lexer.running, hpieces, ← h.lineStart_eq]
  exact ⟨_, hemit, .tracks (((h.pass htaken).enter .done m.lineStart).setMode .done) rfl trivial,
    rfl, Or.inl ⟨rfl, rfl⟩⟩

/-- Whether a comment is at the cursor is found without a failed check. -/
theorem is_hash (h : m.Tracks l front) :
    m.is (m.skipSpace m.cursor) .hash = Lexer.startsComment l.pieces := by
  obtain ⟨space, lead, -, hspace, hskip, hover⟩ := h.exists_lead
  rw [hover.is_eq hskip, Lexer.startsComment, hspace]

/-- The line at the cursor ends where the other lexer finds its end. -/
theorem lineEnd?_skipSpace (h : m.Tracks l front) :
    m.lineEnd? (m.skipSpace m.cursor) =
      some (m.pos + byteLength (Lexer.splitLine l.pieces).1) := by
  obtain ⟨space, lead, hpieces, hspace, hskip, hover⟩ := h.exists_lead
  rw [hover.lineEnd?_eq hskip, Lexer.splitLine_append_space hpieces hspace, h.byteLength_front,
    Text.byteLength_append, Nat.add_assoc]

/-- Comments are passed one after another, and the same token is given past them. -/
theorem gives_inText?_lineStart (h : m.Tracks l front) (hmode : m.mode = .text)
    (hline : l.lineStart = true) :
    Gives m m.inText? (match l.skipComments.leading? with
      | some result => result
      | none => l.skipComments.running) := by
  fun_induction Lexer.skipComments l generalizing m front with
  | case1 l hcomment ih =>
    obtain ⟨taken, htaken, hjoin⟩ := Lexer.splitLine_append_eq l.pieces
    have hpass := h.pass htaken
    rw [hjoin] at hpass
    have hgives := (ih hpass hmode hline).of_past
    cases hpieces : l.pieces with
    | nil => exact absurd hpieces (Lexer.ne_nil_of_startsComment hcomment)
    | cons p rest =>
      have hstart : m.lineStart = true := h.lineStart_eq.trans hline
      rw [inText?, h.getElem?_cursor hpieces]
      simp only [hstart, if_true, h.is_hash, hcomment, h.lineEnd?_skipSpace, ← hjoin,
        h.advanceTo?_eq htaken, Option.bind_eq_bind, Option.bind_some]
      rwa [hpieces] at hgives
  | case2 l hcomment =>
    have hleading := h.gives_leading? hmode hline
    cases hpieces : l.pieces with
    | nil =>
      have hnone : l.leading? = none := by
        rw [Lexer.leading?, hpieces]
        rfl
      rw [hnone, inText?, h.getElem?_cursor_nil hpieces]
      exact h.gives_eof hpieces
    | cons p rest =>
      have hstart : m.lineStart = true := h.lineStart_eq.trans hline
      rw [inText?, h.getElem?_cursor hpieces]
      simp only [hstart, if_true, h.is_hash, hcomment, Bool.false_eq_true, if_false]
      cases hfound : l.leading? with
      | none =>
        rw [hfound] at hleading
        rw [hleading]
        exact h.gives_running? hmode hpieces
      | some result =>
        rw [hfound] at hleading
        obtain ⟨r, hr, hgives⟩ := hleading
        obtain ⟨after, rfl, -⟩ := id hgives
        rw [hr]
        exact hgives

/-- In running text the same token is given. -/
theorem gives_inText? (h : m.Tracks l front) (hmode : m.mode = .text) :
    Gives m m.inText? l.inText := by
  rw [Lexer.inText]
  cases hline : l.lineStart with
  | true =>
    rw [if_pos rfl]
    exact h.gives_inText?_lineStart hmode hline
  | false =>
    have hstart : m.lineStart = false := h.lineStart_eq.trans hline
    rw [if_neg (by simp)]
    cases hpieces : l.pieces with
    | nil =>
      rw [inText?, h.getElem?_cursor_nil hpieces]
      exact h.gives_eof hpieces
    | cons p rest =>
      rw [inText?, h.getElem?_cursor hpieces]
      simp only [hstart, Bool.false_eq_true, if_false]
      exact h.gives_running? hmode hpieces

/-- The rest of a statement line is given, unless there is none. -/
theorem gives_restOfLine? (h : m.Tracks l front) :
    (l.pieces = [] → m.restOfLine? = some none) ∧
    (l.pieces ≠ [] → ∃ r, m.restOfLine? = r.map some ∧ Gives m r l.inStatement) := by
  have hend := h.byteLength_source
  constructor
  · intro hpieces
    have hle : byteLength m.source ≤ m.pos := by simp [hend, hpieces]
    rw [restOfLine?, if_pos hle]
  · intro hne
    have htaken := Lexer.splitLine_append_eq l.pieces
    have hlt := Lexer.length_splitLine_lt hne
    have hall : ∃ taken, l.pieces = taken ++ [] ∧ join taken = join l.pieces :=
      ⟨l.pieces, by simp, rfl⟩
    have hpos := Text.byteLength_pos (h.ne_nil_of_taken hall (List.length_pos_iff.mpr hne))
    have hmore : ¬ byteLength m.source ≤ m.pos := by omega
    have hline : m.lineEnd? m.cursor = some (m.pos + byteLength (Lexer.splitLine l.pieces).1) := by
      rw [h.lineEnd?_eq h.cursor_eq, h.pos_eq]
    have hgives := h.gives_enter (show Token.Kind.text ≠ .eof by simp) .text true htaken hlt trivial
    have hstatement : l.inStatement =
        l.emit .text (Lexer.splitLine l.pieces).1 (Lexer.splitLine l.pieces).2 .text true := by
      rw [Lexer.inStatement]
      cases hpieces : l.pieces with
      | nil => exact absurd hpieces hne
      | cons p rest => rfl
    rw [restOfLine?, if_neg hmore, hline, Option.bind_eq_bind, Option.bind_some,
      hstatement]
    exact ⟨_, rfl, hgives⟩

/-- The target of a reference is given, or its quote if it is never closed, unless there is none. -/
theorem gives_target? (h : m.Tracks l front) :
    (m.target? = some none ∧ l.inName = l.inReference) ∨
      ∃ r, m.target? = r.map some ∧ Gives m r l.inName := by
  have hslice := h.slice?_front
  rw [← h.pos_eq] at hslice
  rw [target?, hslice, Option.bind_eq_bind, Option.bind_some, ← h.before_eq,
    h.is_cursor, Lexer.inName]
  cases hpieces : l.pieces with
  | nil => exact Or.inl ⟨by simp, rfl⟩
  | cons p rest =>
    by_cases hquote : p.kind = .quote ∧ l.before = some ':'
    · right
      have hopen : l.before = some ':' ∧ (p :: rest).head?.any (·.kind == .quote) = true := by
        simp [hquote]
      have hnext := (h.over_cons hpieces).next
      have hfrom := hnext.from?_eq (show m.cursor + 1 = (front ++ [p]).length by simp [h.cursor_eq])
      have hfind := Lexeme.findIdx?_quote (byteLength (join (front ++ [p]))) rest
      simp only [hopen, hquote, and_self, if_true, hfrom, Option.bind_eq_bind, Option.bind_some]
      generalize ((Lexeme.ofPieces _ rest).takeWhile _).findIdx? _ = found at hfind ⊢
      cases found with
      | some offset =>
        obtain ⟨taken, close, after, rfl, rfl, hsplit⟩ := hfind
        have hclose : m.Over (front ++ p :: taken ++ close :: after) := by simpa using hnext
        have hindex : m.cursor + 1 + taken.length = (front ++ p :: taken).length := by
          simp [h.cursor_eq]
          omega
        have hstop : byteLength (join (front ++ p :: taken)) + byteLength close.text =
            m.pos + byteLength (p.text ++ (join taken ++ close.text)) := by
          simp [h.pos_eq, Nat.add_assoc]
        simp only [hsplit, hclose.getElem?_raw_cons hindex, Option.bind_some, hstop]
        have htaken : ∃ taken', l.pieces = taken' ++ after ∧
            join taken' = p.text ++ (join taken ++ close.text) :=
          ⟨p :: taken ++ [close], by simp [hpieces], by simp⟩
        have hlt : after.length < l.pieces.length := by
          simp [hpieces]
          omega
        refine ⟨_, rfl, ?_⟩
        rw [h.lineStart_eq]
        exact h.gives_enter (by simp) .afterTarget l.lineStart htaken hlt trivial
      | none =>
        simp only [hfind, h.getElem?_cursor hpieces, Option.bind_some]
        exact ⟨_, rfl, h.gives_piece hpieces (by simp) .text false trivial⟩
    · left
      have hopen : ¬ (l.before = some ':' ∧ (p :: rest).head?.any (·.kind == .quote) = true) := by
        simpa [and_comm] using hquote
      exact ⟨if_neg hopen, if_neg hquote⟩

/-- A brace at the cursor is one byte. -/
theorem pos_brace (h : m.Tracks l front) (hpieces : l.pieces = p :: rest)
    (hkind : p.kind = .leftBrace ∨ p.kind = .rightBrace) :
    m.pos + 1 = m.pos + byteLength p.text := by
  have hsound : p.Sound := h.sound p (by simp [hpieces])
  rcases hkind with hkind | hkind
  · rw [hsound.eq_leftBrace hkind]
    rfl
  · rw [hsound.eq_rightBrace hkind]
    rfl

/-- The brace at the cursor is given. -/
theorem gives_openBody? (h : m.Tracks l front) (hpieces : l.pieces = p :: rest)
    (hkind : p.kind = .leftBrace) :
    Gives m m.openBody?
      (if Lexer.closes 1 rest then l.emit .braceOpen p.text rest (.body 1) l.lineStart
        else l.emit .error p.text rest .text l.lineStart) := by
  have hover := h.over_cons hpieces
  have hstop := h.pos_brace hpieces (.inl hkind)
  have hbalanced : balanced? 0 (Lexeme.ofPieces (byteLength (join front)) (p :: rest)) =
      some (Lexer.closes 1 rest) := by
    rw [Lexeme.ofPieces_cons, balanced?, if_pos hkind]
    exact Lexeme.balanced?_ofPieces (Nat.le_refl 1) _ rest
  simp only [openBody?, hover.from?_eq h.cursor_eq, hbalanced, Option.bind_eq_bind,
    Option.bind_some, hstop, h.lineStart_eq]
  cases hcloses : Lexer.closes 1 rest with
  | true => exact h.gives_piece hpieces (by simp) (.body 1) l.lineStart ⟨Nat.le_refl 1, hcloses⟩
  | false => exact h.gives_piece hpieces (by simp) .text l.lineStart trivial

/-- A fragment of a body is given, up to the next brace. -/
theorem gives_fragment (h : m.Tracks l front) {depth : Nat} (hmode : m.mode = .body depth)
    (hstands : Lexer.Mode.Stands (.body depth) l.pieces) (hpieces : l.pieces = p :: rest)
    (hbrace : ¬ (p.kind = .leftBrace ∨ p.kind = .rightBrace)) :
    Gives m (m.emit? .text (bodyEnd (byteLength m.source) (Lexeme.ofPieces m.pos l.pieces)))
      (l.emit .text (Lexer.splitBody l.pieces).1 (Lexer.splitBody l.pieces).2 (.body depth)
        l.lineStart) := by
  have hlt : (Lexer.splitBody l.pieces).2.length < l.pieces.length := by
    have hle := Lexer.length_splitBody_le rest
    rw [hpieces, Lexer.splitBody, if_neg hbrace]
    split <;> simp only [List.length_cons] <;> omega
  have hinside : Lexer.Mode.Stands (.body depth) (Lexer.splitBody l.pieces).2 :=
    ⟨hstands.1, (Lexer.closes_splitBody depth l.pieces).trans hstands.2⟩
  rw [h.byteLength_source, Lexeme.bodyEnd_ofPieces]
  exact h.gives (by simp) (.body depth) hmode (Lexer.splitBody_append_eq l.pieces) hlt hinside

/-- In a body the same token is given. -/
theorem gives_inBody? (h : m.Tracks l front) {depth : Nat} (hmode : m.mode = .body depth)
    (hstands : Lexer.Mode.Stands (.body depth) l.pieces) :
    Gives m (m.inBody? depth) (l.inBody depth) := by
  have hdepth := hstands.1
  have hcloses := hstands.2
  have hfrom := h.from?_eq h.cursor_eq
  rw [inBody?, h.is_cursor, h.is_cursor, hfrom, ← h.pos_eq, Lexer.inBody]
  cases hpieces : l.pieces with
  | nil =>
    rw [hpieces] at hcloses
    cases hcloses
  | cons p rest =>
    rw [hpieces, Lexer.closes] at hcloses
    by_cases hleft : p.kind = .leftBrace
    · have hstop := h.pos_brace hpieces (.inl hleft)
      rw [if_pos hleft] at hcloses
      simp only [List.head?_cons, Option.any_some, hleft, beq_self_eq_true, if_true, hstop,
        h.lineStart_eq]
      exact h.gives_piece hpieces (by simp) (.body (depth + 1)) l.lineStart
        ⟨Nat.le_add_left 1 depth, hcloses⟩
    · rw [if_neg hleft] at hcloses
      by_cases hright : p.kind = .rightBrace
      · have hstop := h.pos_brace hpieces (.inr hright)
        rw [if_pos hright] at hcloses
        simp only [List.head?_cons, Option.any_some, hright, beq_self_eq_true, if_true, hstop,
          h.lineStart_eq, sub?_of_le hdepth, Option.map_some]
        by_cases hlast : depth ≤ 1
        · simp only [hlast, if_true]
          exact h.gives_piece hpieces (by simp) .text l.lineStart trivial
        · simp only [hlast, if_false]
          have hinside : Lexer.closes (depth - 1) rest = true := by simpa [hlast] using hcloses
          exact h.gives_piece hpieces (by simp) (.body (depth - 1)) l.lineStart
            ⟨by omega, hinside⟩
      · have hfragment := h.gives_fragment hmode hstands hpieces (by simp [hleft, hright])
        rw [hpieces] at hfragment
        simpa [hleft, hright] using hfragment

end Tracks

/-- What the next step gives, where the lexer over pieces has a next token. -/
def Steps (m : CheckedLexer) (result : Token × Lexer) : Prop :=
  ∃ r, m.next? = r.map some ∧ Gives m r result

namespace Tracks

/-- In running text the checked step gives the token of the lexer over pieces. -/
theorem steps_text (h : m.Tracks l front) (hmode : m.mode = .text) : m.Steps l.inText := by
  refine ⟨m.inText?, ?_, h.gives_inText? hmode⟩
  rw [next?, hmode]

/-- Past a target the checked step gives the token of the lexer over pieces. -/
theorem steps_afterTarget (h : m.Tracks l front) (hmode : m.mode = .afterTarget) :
    m.Steps l.inReference := by
  obtain ⟨space, lead, hpieces, hspace, hskip, hover⟩ := h.exists_lead
  have htext := (h.enter .text l.lineStart).steps_text rfl
  have hpass := (h.enter .text l.lineStart).pass hpieces
  rw [Steps, next?, hmode, Lexer.inReference, hspace, h.lineStart_eq]
  simp only [hover.is_eq hskip]
  cases lead with
  | nil => exact htext
  | cons p rest =>
    by_cases hkind : p.kind = .leftBrace
    · have hadvance := (h.enter .text l.lineStart).advanceTo?_eq hpieces
      have hstart : byteLength (join (front ++ space)) =
          (m.enter .text l.lineStart).pos + byteLength (join space) := h.byteLength_front space
      simp only [List.head?_cons, Option.any_some, hkind, beq_self_eq_true, if_true,
        hover.getElem?_raw_cons hskip, Option.bind_eq_bind, Option.bind_some, hstart, hadvance]
      exact ⟨_, rfl, (hpass.gives_openBody? rfl hkind).of_past⟩
    · have hother : (p.kind == .leftBrace) = false := by simpa using hkind
      simp only [List.head?_cons, Option.any_some, hother, Bool.false_eq_true, if_false, hkind]
      exact htext

/-- Past a name the checked step gives the token of the lexer over pieces, whether there is a target
or not. -/
theorem steps_afterName (h : m.Tracks l front) (hmode : m.mode = .afterName) :
    m.Steps l.inName := by
  rw [Steps, next?, hmode]
  rcases h.gives_target? with ⟨htarget, hname⟩ | ⟨r, htarget, hgives⟩
  · simp only [hname, htarget, h.lineStart_eq, Option.bind_eq_bind, Option.bind_some]
    exact (h.enter .afterTarget l.lineStart).steps_afterTarget rfl
  · obtain ⟨after, rfl, -⟩ := id hgives
    simp only [htarget, Option.bind_eq_bind, Option.bind_some, Option.map_some]
    exact ⟨_, rfl, hgives⟩

/-- Past a keyword the checked step gives the rest of the line, or goes on as in running text. -/
theorem steps_statement (h : m.Tracks l front) (hmode : m.mode = .statement) :
    m.Steps l.inStatement := by
  rw [Steps, next?, hmode]
  by_cases hpieces : l.pieces = []
  · have hline : l.inStatement = { l with lineStart := true }.inText := by
      rw [Lexer.inStatement, hpieces]
    simp only [h.gives_restOfLine?.1 hpieces, hline, Option.bind_eq_bind, Option.bind_some]
    exact (h.enter .text true).steps_text rfl
  · obtain ⟨r, hrest, hgives⟩ := h.gives_restOfLine?.2 hpieces
    obtain ⟨after, rfl, -⟩ := id hgives
    simp only [hrest, Option.bind_eq_bind, Option.bind_some, Option.map_some]
    exact ⟨_, rfl, hgives⟩

/-- In a body the checked step gives the token of the lexer over pieces, and the depth is never
taken below zero. -/
theorem steps_body (h : m.Tracks l front) {depth : Nat} (hmode : m.mode = .body depth)
    (hstands : Lexer.Mode.Stands (.body depth) l.pieces) : m.Steps (l.inBody depth) := by
  rw [Steps, next?, hmode]
  exact ⟨_, rfl, h.gives_inBody? hmode hstands⟩

/-- A bare at sign was passed whole, so no name follows it. -/
theorem steps_afterAt (h : m.Tracks l front) (hmode : m.mode = .afterAt) : m.Steps l.inName := by
  have hend : m.nameEnd = m.pos := by
    rw [nameEnd]
    cases hpieces : l.pieces with
    | nil => rw [h.getElem?_cursor_nil hpieces]
    | cons p rest => simp [h.getElem?_cursor hpieces]
  rw [Steps, next?, hmode]
  simp only [hend, Nat.lt_irrefl, if_false, h.lineStart_eq]
  exact (h.enter .afterName l.lineStart).steps_afterName rfl

end Tracks

/-- The name glued to an at sign is a slice up to the end of its piece, and no other piece ends in
it. -/
theorem Over.slice?_name {c : Char} {name : Text}
    (h : m.Over (front ++ ⟨.at, '@' :: c :: name⟩ :: rest)) (hcursor : m.cursor = front.length)
    (hpos : m.pos = byteLength (join front) + 1) :
    slice? m.source m.pos (m.pos + byteLength (c :: name)) = some (c :: name) ∧
      ((m.raw.drop m.cursor).takeWhile (·.stop ≤ m.pos + byteLength (c :: name))).length = 1 ∧
      m.nameEnd = m.pos + byteLength (c :: name) := by
  have hsize : '@'.utf8Size = 1 := rfl
  have hpart := Text.slice?_append (join front ++ ['@']) (c :: name) (join rest)
  have hsound : ∀ p ∈ [⟨.at, '@' :: c :: name⟩] ++ rest, Piece.Sound p :=
    fun p hp => h.sound p (List.mem_append_right front hp)
  have htake := Lexeme.length_takeWhile_stop (byteLength (join front)) hsound
  refine ⟨?_, ?_, ?_⟩
  · rw [h.source_eq, hpos]
    simpa [hsize] using hpart
  · rw [hcursor, h.drop_raw, hpos]
    simpa [hsize, Nat.add_assoc] using htake
  · rw [nameEnd, h.getElem?_raw_cons hcursor, hpos]
    simp [hsize, Nat.add_assoc]

/-- The name glued to an at sign is given, up to the end of its piece. -/
theorem steps_glued {c : Char} {name : Text} (hmode : m.mode = .afterAt)
    (hover : m.Over (front ++ ⟨.at, '@' :: c :: name⟩ :: l.pieces))
    (hcursor : m.cursor = front.length) (hpos : m.pos = byteLength (join front) + 1)
    (hplace : m.place = l.place) (hlineStart : m.lineStart = l.lineStart) :
    m.Steps (l.emit .identifier (c :: name) l.pieces .afterName l.lineStart) := by
  have hsize : '@'.utf8Size = 1 := rfl
  obtain ⟨hslice, hended, hend⟩ := hover.slice?_name hcursor hpos
  have hemit : (m.enter .afterName m.lineStart).emit? .identifier
      (m.pos + byteLength (c :: name)) = _ := emit?_of_slice? .identifier hslice hended
  have hplace : (m.enter .afterName m.lineStart).place = l.place := hplace
  have hmore : m.pos < m.pos + byteLength (c :: name) :=
    Nat.lt_add_of_pos_right (Text.byteLength_pos (List.cons_ne_nil c name))
  obtain ⟨last, hlast⟩ := Option.ne_none_iff_exists'.mp
    (mt List.getLast?_eq_none_iff.mp (List.cons_ne_nil c name))
  have hpast := hover.next
  rw [Steps, next?, hmode]
  simp only [hend, hmore, if_true, hemit, hplace]
  refine ⟨_, rfl, _, rfl, .tracks ⟨⟨hpast.source_eq, hpast.raw_eq, hpast.sound⟩, ?_, ?_, rfl,
    hlineStart, ?_⟩ rfl trivial, rfl, Or.inr ⟨by simp [Lexer.emit], hmore⟩⟩
  · simp [enter, hcursor]
  · simp [hpos, hsize, Nat.add_assoc]
  · simp [Lexer.emit, Lexer.pass, hlast, List.getLast?_append, List.getLast?_cons]

/-- A lexer that stands for the one over pieces gives its next token, or is done as that one is. -/
theorem Matches.steps (h : Matches m l) :
    match l.next? with
    | none => m.next? = some none
    | some result => m.Steps result := by
  cases h with
  | glued hmode hname hover hcursor hpos hplace hlineStart =>
    rw [Lexer.next?, hname]
    exact steps_glued hmode hover hcursor hpos hplace hlineStart
  | tracks h hmode hstands =>
    rw [Lexer.next?]
    cases hl : l.mode with
    | done =>
      rw [hl] at hmode
      rw [next?, hmode]
      rfl
    | text => exact h.steps_text (by rw [hmode, hl]; rfl)
    | afterName => exact h.steps_afterName (by rw [hmode, hl]; rfl)
    | afterTarget => exact h.steps_afterTarget (by rw [hmode, hl]; rfl)
    | statement => exact h.steps_statement (by rw [hmode, hl]; rfl)
    | body depth =>
      rw [hl] at hmode hstands
      exact h.steps_body hmode hstands
    | afterAt name =>
      rw [hl] at hmode hstands
      obtain rfl : name = [] := hstands
      exact h.steps_afterAt hmode

/-- At the start of a script each stands for the other. -/
theorem matches_ofText (source : Text) : Matches (ofText source) (Lexer.ofText source) := by
  have hover : (ofText source).Over ([] ++ Piece.scan source) :=
    ⟨(Piece.join_scan source).symm, rfl, fun p hp => Piece.sound_of_mem_scan hp⟩
  exact .tracks ⟨hover, rfl, rfl, rfl, rfl, rfl⟩ rfl trivial

/-- The checked run gives the tokens of the lexer over pieces. -/
theorem Matches.tokens?_eq (h : Matches m l) : m.tokens? = some l.tokens := by
  fun_induction Lexer.tokens l generalizing m with
  | case1 l hnone =>
    have hnext := h.steps
    rw [hnone] at hnext
    rw [tokens?, hnext]
    rfl
  | case2 l token after hsome ih =>
    have hnext := h.steps
    rw [hsome] at hnext
    obtain ⟨r, hr, ⟨afterwards, rfl, hmatches, -⟩⟩ := hnext
    rw [tokens?, hr]
    simp only [Option.map_some, Option.bind_eq_bind, Option.bind_some, ih hmatches]

end PromptScript.CheckedLexer
