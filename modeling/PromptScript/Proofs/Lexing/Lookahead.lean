import PromptScript.Proofs.Lexing.Checked
import PromptScript.Proofs.Lexing.Cover

/-!
# Looking ahead by offset

Over the pieces of a script, whatever the lexer over offsets looks up at the index of a piece is
there: every slice is the text of pieces in a row, and every end that is looked for is the end of
the text that the lexer over pieces takes.
-/

namespace PromptScript

open Piece (join)
open Text (byteLength slice? slice?_append slice?_zero)

namespace Lexeme

@[simp] theorem ofPieces_nil (offset : Nat) : ofPieces offset [] = [] := rfl

@[simp] theorem ofPieces_cons (offset : Nat) (p : Piece) (rest : List Piece) :
    ofPieces offset (p :: rest) =
      ⟨p.kind, offset, offset + byteLength p.text⟩ ::
        ofPieces (offset + byteLength p.text) rest := rfl

/-- Pieces in a row are laid out one after the other, the later ones past the bytes of the earlier.
-/
theorem ofPieces_append (offset : Nat) (ps qs : List Piece) :
    ofPieces offset (ps ++ qs) =
      ofPieces offset ps ++ ofPieces (offset + byteLength (join ps)) qs := by
  induction ps generalizing offset with
  | nil => simp
  | cons p ps ih => simp [ih, Nat.add_assoc]

/-- Each piece is laid out once. -/
@[simp] theorem length_ofPieces (offset : Nat) (ps : List Piece) :
    (ofPieces offset ps).length = ps.length := by
  induction ps generalizing offset with
  | nil => rfl
  | cons p ps ih => simp [ih]

/-- The first line break among pieces ends the line that the lexer takes. -/
theorem find?_newline (start : Nat) (ps : List Piece) :
    (match (ofPieces start ps).find? (·.kind == .newline) with
      | none => start + byteLength (join ps)
      | some l => l.stop) = start + byteLength (Lexer.splitLine ps).1 := by
  induction ps generalizing start with
  | nil => rfl
  | cons p ps ih =>
    rw [ofPieces_cons, Lexer.splitLine]
    by_cases hkind : p.kind = .newline
    · rw [List.find?_cons_of_pos (by simpa using hkind), if_pos hkind]
    · rw [List.find?_cons_of_neg (by simpa using hkind), if_neg hkind, Piece.join_cons,
        Text.byteLength_append, Text.byteLength_append, ← Nat.add_assoc, ← Nat.add_assoc]
      exact ih _

/-- The next brace or line break ends the fragment of a body that the lexer takes. -/
theorem bodyEnd_ofPieces (start : Nat) (ps : List Piece) :
    CheckedLexer.bodyEnd (start + byteLength (join ps)) (ofPieces start ps) =
      start + byteLength (Lexer.splitBody ps).1 := by
  induction ps generalizing start with
  | nil => rfl
  | cons p ps ih =>
    rw [ofPieces_cons, CheckedLexer.bodyEnd, Lexer.splitBody]
    by_cases hbrace : p.kind = .leftBrace ∨ p.kind = .rightBrace
    · rw [if_pos hbrace, if_pos hbrace]
      rfl
    · rw [if_neg hbrace, if_neg hbrace]
      by_cases hkind : p.kind = .newline
      · rw [if_pos hkind, if_pos hkind]
      · rw [if_neg hkind, if_neg hkind, Piece.join_cons, Text.byteLength_append,
          Text.byteLength_append, ← Nat.add_assoc, ← Nat.add_assoc]
        exact ih _

/-- Braces that are open are counted down without ever falling below none. -/
theorem balanced?_ofPieces {depth : Nat} (hdepth : 1 ≤ depth) (start : Nat) (ps : List Piece) :
    CheckedLexer.balanced? depth (ofPieces start ps) = some (Lexer.closes depth ps) := by
  induction ps generalizing depth start with
  | nil => rfl
  | cons p ps ih =>
    rw [ofPieces_cons, CheckedLexer.balanced?, Lexer.closes]
    by_cases hleft : p.kind = .leftBrace
    · rw [if_pos hleft, if_pos hleft, ih (Nat.le_add_left 1 depth)]
    · rw [if_neg hleft, if_neg hleft]
      by_cases hright : p.kind = .rightBrace
      · rw [if_pos hright, if_pos hright, sub?_of_le hdepth]
        by_cases hlast : depth ≤ 1
        · have hzero : depth - 1 = 0 := by omega
          simp [hzero, hlast]
        · have hinside : ¬ depth - 1 = 0 := by omega
          simp [hinside, hlast, ih (show 1 ≤ depth - 1 by omega)]
      · rw [if_neg hright, if_neg hright, ih hdepth]

/-- The next quote on the line is the one that the lexer looks for. -/
theorem findIdx?_quote (start : Nat) (ps : List Piece) :
    match ((ofPieces start ps).takeWhile (·.kind != .newline)).findIdx? (·.kind == .quote) with
    | some offset => ∃ taken close after, ps = taken ++ close :: after ∧ taken.length = offset ∧
        Lexer.splitQuote? ps = some (join taken ++ close.text, after)
    | none => Lexer.splitQuote? ps = none := by
  induction ps generalizing start with
  | nil => rfl
  | cons p ps ih =>
    rw [ofPieces_cons, Lexer.splitQuote?]
    by_cases hkind : p.kind = .newline
    · rw [List.takeWhile_cons_of_neg (by simpa using hkind), if_pos hkind]
      rfl
    · rw [List.takeWhile_cons_of_pos (by simpa using hkind), if_neg hkind, List.findIdx?_cons]
      by_cases hquote : p.kind = .quote
      · simp only [hquote, beq_self_eq_true, if_true]
        exact ⟨[], p, ps, rfl, rfl, rfl⟩
      · have hother : (p.kind == .quote) = false := by simpa using hquote
        simp only [hother, Bool.false_eq_true, if_false, hquote]
        specialize ih (start + byteLength p.text)
        split at ih
        · rename_i offset hfound
          obtain ⟨taken, close, after, rfl, rfl, hsplit⟩ := ih
          rw [hfound, hsplit]
          exact ⟨p :: taken, close, after, rfl, rfl, by simp⟩
        · rename_i hfound
          rw [hfound, ih]
          rfl

end Lexeme

namespace Lexer

/-- The rest of a line takes pieces from the front. -/
theorem splitLine_append_eq (ps : List Piece) :
    ∃ taken, ps = taken ++ (splitLine ps).2 ∧ join taken = (splitLine ps).1 := by
  induction ps with
  | nil => exact ⟨[], rfl, rfl⟩
  | cons p rest ih =>
    obtain ⟨taken, hrest, hjoin⟩ := ih
    rw [splitLine]
    split
    · exact ⟨[p], rfl, by simp⟩
    · exact ⟨p :: taken, by rw [List.cons_append, ← hrest], by rw [Piece.join_cons, hjoin]⟩

/-- A fragment of a body takes pieces from the front. -/
theorem splitBody_append_eq (ps : List Piece) :
    ∃ taken, ps = taken ++ (splitBody ps).2 ∧ join taken = (splitBody ps).1 := by
  induction ps with
  | nil => exact ⟨[], rfl, rfl⟩
  | cons p rest ih =>
    obtain ⟨taken, hrest, hjoin⟩ := ih
    rw [splitBody]
    split
    · exact ⟨[], rfl, rfl⟩
    · split
      · exact ⟨[p], rfl, by simp⟩
      · exact ⟨p :: taken, by rw [List.cons_append, ← hrest], by rw [Piece.join_cons, hjoin]⟩

/-- A fragment of a body closes no braces. -/
theorem closes_splitBody (depth : Nat) (ps : List Piece) :
    closes depth (splitBody ps).2 = closes depth ps := by
  induction ps with
  | nil => rfl
  | cons p rest ih =>
    rw [splitBody]
    by_cases hbrace : p.kind = .leftBrace ∨ p.kind = .rightBrace
    · rw [if_pos hbrace]
    · obtain ⟨hleft, hright⟩ := not_or.mp hbrace
      rw [if_neg hbrace, closes, if_neg hleft, if_neg hright]
      split
      · rfl
      · exact ih

/-- The end of a line is the same from behind its white space. -/
theorem splitLine_append_space {space lead ps : List Piece} (hps : ps = space ++ lead)
    (hspace : splitSpace ps = (join space, lead)) :
    splitLine ps = (join space ++ (splitLine lead).1, (splitLine lead).2) := by
  subst hps
  cases space with
  | nil => rfl
  | cons p space =>
    rw [List.cons_append, splitSpace] at hspace
    split at hspace
    · rename_i hkind
      obtain ⟨-, hlead⟩ := Prod.mk.inj hspace
      obtain rfl : space = [] := by simpa using hlead
      rw [List.cons_append, splitLine, if_neg (by simp [hkind])]
      simp
    · obtain ⟨-, hlead⟩ := Prod.mk.inj hspace
      have hlength := congrArg List.length hlead
      simp only [List.length_cons, List.length_append] at hlength
      omega

end Lexer

namespace CheckedLexer

/-- The lexer over offsets has the pieces of its script, and they are sound. -/
structure Over (m : CheckedLexer) (ps : List Piece) : Prop where
  /-- The pieces make up the script. -/
  source_eq : m.source = join ps
  /-- The pieces have their offsets. -/
  raw_eq : m.raw = Lexeme.ofPieces 0 ps
  /-- The pieces are those of a scan. -/
  sound : ∀ p ∈ ps, p.Sound

namespace Over

variable {m : CheckedLexer} {front rest : List Piece} {p : Piece} {i : Nat}

/-- The pieces from an index on. -/
theorem drop_raw (h : m.Over (front ++ rest)) :
    m.raw.drop front.length = Lexeme.ofPieces (byteLength (join front)) rest := by
  rw [h.raw_eq, Lexeme.ofPieces_append, List.drop_left' (Lexeme.length_ofPieces _ _), Nat.zero_add]

/-- The entry at the index of a piece is the one laid out for that piece. -/
theorem getElem?_raw (h : m.Over (front ++ rest)) (hi : i = front.length) :
    m.raw[i]? = (Lexeme.ofPieces (byteLength (join front)) rest).head? := by
  rw [← h.drop_raw, List.head?_drop, hi]

/-- Past the last piece there is no entry. -/
theorem getElem?_raw_nil (h : m.Over front) (hi : i = front.length) : m.raw[i]? = none := by
  rw [← List.append_nil front] at h
  exact h.getElem?_raw hi

/-- The entry of a piece has its kind and the offsets at which it begins and ends. -/
theorem getElem?_raw_cons (h : m.Over (front ++ p :: rest)) (hi : i = front.length) :
    m.raw[i]? =
      some ⟨p.kind, byteLength (join front), byteLength (join front) + byteLength p.text⟩ :=
  h.getElem?_raw hi

/-- Asking for a kind at an index asks for the kind of the piece there. -/
theorem is_eq (h : m.Over (front ++ rest)) (hi : i = front.length) (kind : Piece.Kind) :
    m.is i kind = rest.head?.any (·.kind == kind) := by
  rw [is, h.getElem?_raw hi]
  cases rest <;> rfl

/-- The entries from an index on are those of the pieces from there on. -/
theorem from?_eq (h : m.Over (front ++ rest)) (hi : i = front.length) :
    m.from? i = some (Lexeme.ofPieces (byteLength (join front)) rest) := by
  have hle : front.length ≤ m.raw.length := by
    rw [h.raw_eq]
    simp
  rw [from?, hi, if_pos hle, h.drop_raw]

/-- The pieces past one more. -/
theorem next (h : m.Over (front ++ p :: rest)) : m.Over (front ++ [p] ++ rest) := by
  simpa using h

/-- The character before the piece past another is the last of that other piece. -/
theorem getLast?_join (h : m.Over (front ++ p :: rest)) :
    (join (front ++ [p])).getLast? = p.text.getLast? := by
  obtain ⟨c, hc⟩ := Option.ne_none_iff_exists'.mp
    (mt List.getLast?_eq_none_iff.mp (h.sound p (by simp)).ne_nil)
  simp [List.getLast?_append, hc]

/-- The text before an index is a slice. -/
theorem slice?_front (h : m.Over (front ++ rest)) :
    slice? m.source 0 (byteLength (join front)) = some (join front) := by
  rw [h.source_eq, Piece.join_append]
  exact slice?_zero _ _

/-- The text of pieces in a row is a slice. -/
theorem slice?_taken {taken : List Piece} (h : m.Over (front ++ (taken ++ rest))) :
    slice? m.source (byteLength (join front)) (byteLength (join front) + byteLength (join taken)) =
      some (join taken) := by
  rw [h.source_eq, ← List.append_assoc, Piece.join_append, Piece.join_append]
  exact slice?_append _ _ _

/-- The pieces past white space. -/
theorem exists_skipSpace (h : m.Over (front ++ rest)) (hi : i = front.length) :
    ∃ space lead, rest = space ++ lead ∧ Lexer.splitSpace rest = (join space, lead) ∧
      m.skipSpace i = (front ++ space).length := by
  rw [skipSpace, h.is_eq hi]
  cases rest with
  | nil => exact ⟨[], [], rfl, rfl, by simp [hi]⟩
  | cons p rest =>
    rw [Lexer.splitSpace]
    by_cases hkind : p.kind = .space
    · exact ⟨[p], rest, rfl, by simp [hkind], by simp [hkind, hi]⟩
    · exact ⟨[], p :: rest, rfl, by simp [hkind], by simp [hkind, hi]⟩

/-- The piece at an index starts where the text of those before it ends. -/
theorem startOf_eq (h : m.Over (front ++ rest)) (hi : i = front.length) :
    m.startOf i = byteLength (join front) := by
  rw [startOf, h.getElem?_raw hi]
  cases rest with
  | nil => rw [Lexeme.ofPieces_nil, List.head?_nil, h.source_eq, List.append_nil]
  | cons p rest => rfl

/-- The end of the line that is looked for ends the text that the lexer over pieces takes. -/
theorem lineEnd?_eq (h : m.Over (front ++ rest)) (hi : i = front.length) :
    m.lineEnd? i = some (byteLength (join front) + byteLength (Lexer.splitLine rest).1) := by
  have hmin : min i m.raw.length = front.length := by
    rw [hi, h.raw_eq]
    simp
  have hend : byteLength m.source = byteLength (join front) + byteLength (join rest) := by
    rw [h.source_eq]
    simp
  rw [lineEnd?, h.from?_eq hmin, Option.bind_eq_bind, Option.bind_some, hend,
    ← Lexeme.find?_newline]
  cases (Lexeme.ofPieces (byteLength (join front)) rest).find? (·.kind == .newline) <;> rfl

/-- Whether a reference begins is found out without a failed check. -/
theorem startsReference?_eq (h : m.Over (front ++ rest)) (hi : i = front.length) :
    m.startsReference? i = some (Lexer.startsReference (join front).getLast? rest) := by
  cases rest with
  | nil =>
    rw [List.append_nil] at h
    rw [startsReference?, h.getElem?_raw_nil hi]
    rfl
  | cons p rest =>
    rw [startsReference?, h.getElem?_raw_cons hi, Lexer.startsReference]
    by_cases hkind : p.kind = .at
    · obtain ⟨name, rfl, -⟩ := (h.sound p (by simp)).eq_at hkind
      have hnext : m.is (i + 1) .leftBrace = rest.head?.any (·.kind == .leftBrace) :=
        h.next.is_eq (by simp [hi]) .leftBrace
      have hwidth : (1 < byteLength ('@' :: name)) = (1 < ('@' :: name).length) := by
        have hsize : '@'.utf8Size = 1 := rfl
        cases name with
        | nil => rfl
        | cons c name =>
          have hpos := Text.byteLength_pos (List.cons_ne_nil c name)
          rw [Text.byteLength_cons, hsize]
          simp only [List.length_cons, eq_iff_iff]
          omega
      simp only [ne_eq, not_true_eq_false, if_false, h.slice?_front, sub?_add, hnext, hwidth,
        Option.bind_eq_bind, Option.bind_some, beq_self_eq_true, Bool.true_and]
      cases (join front).getLast?.any Text.joinsWord <;> simp
    · simp [hkind]

/-- The end of a header is found without a failed check. -/
theorem headerEnd?_eq (h : m.Over (front ++ rest)) (hi : i = front.length) :
    m.headerEnd? i = some ((Lexer.header? rest).map fun parts =>
      byteLength (join front) + byteLength parts.1) := by
  rw [headerEnd?, h.is_eq hi]
  cases rest with
  | nil => rfl
  | cons p rest =>
    rw [Lexer.header?]
    by_cases hkind : p.kind = .sectionWord
    · obtain ⟨space, lead, rfl, hspace, hskip⟩ :=
        h.next.exists_skipSpace (i := i + 1) (by simp [hi])
      have hlead : m.Over (front ++ [p] ++ space ++ lead) := by simpa using h
      simp only [List.head?_cons, Option.any_some, hkind, beq_self_eq_true, if_true, hspace,
        hlead.is_eq hskip]
      cases lead with
      | nil => rfl
      | cons colon after =>
        have hslice : m.text? (m.skipSpace (i + 1)) = some colon.text := by
          have hcolon : m.Over (front ++ [p] ++ space ++ ([colon] ++ after)) := hlead
          rw [text?, hlead.getElem?_raw_cons hskip]
          simpa using hcolon.slice?_taken
        simp only [List.head?_cons, Option.any_some, hslice, Option.bind_eq_bind, Option.bind_some,
          hlead.getElem?_raw_cons hskip]
        by_cases hpunct : colon.kind = .punct
        · by_cases hcolon : colon.text = [':']
          · simp [hpunct, hcolon, Nat.add_assoc]
          · simp [hpunct, hcolon]
        · simp [hpunct]
    · simp [hkind]

/-- The end of a statement keyword is found without a failed check. -/
theorem statementEnd?_eq (h : m.Over (front ++ rest)) (hi : i = front.length) :
    m.statementEnd? i = some ((Lexer.statement? rest).map fun parts =>
      byteLength (join front) + byteLength parts.1) := by
  cases rest with
  | nil =>
    rw [List.append_nil] at h
    rw [statementEnd?, h.getElem?_raw_nil hi]
    rfl
  | cons p rest =>
    rw [statementEnd?, h.getElem?_raw_cons hi]
    unfold Lexer.statement?
    by_cases hsingle : p.kind = .ifWord ∨ p.kind = .elseWord ∨ p.kind = .endWord
    · simp [hsingle]
    · simp only [hsingle, if_false]
      cases hsecond : Lexer.secondWord? p.kind with
      | none => simp
      | some second =>
        simp only [h.next.is_eq (i := i + 1) (by simp [hi])]
        match rest with
        | [] => rfl
        | [space] =>
          simp [h.next.next.is_eq (i := i + 2) (by simp [hi])]
        | space :: q :: after =>
          have hindex : i + 2 = (front ++ [p] ++ [space]).length := by simp [hi]
          simp only [h.next.next.is_eq hindex, h.next.next.getElem?_raw_cons hindex,
            List.head?_cons, Option.any_some]
          by_cases hboth : space.kind = .space ∧ q.kind = second
          · simp [hboth.1, hboth.2, Nat.add_assoc]
          · have hnot : (space.kind == .space && q.kind == second) = false := by simpa using hboth
            simp [hboth, hnot]

/-- The end of a fragment of text is found without a failed check. -/
theorem textEnd?_eq (h : m.Over (front ++ rest)) (hi : i = front.length) :
    m.textEnd? (byteLength (join front)) i (Lexeme.ofPieces (byteLength (join front)) rest) =
      some (byteLength (join front) +
        byteLength (Lexer.splitText (join front).getLast? rest).1) := by
  induction rest generalizing front i with
  | nil => rfl
  | cons p rest ih =>
    rw [Lexeme.ofPieces_cons, textEnd?, h.startsReference?_eq hi, Lexer.splitText,
      Option.bind_eq_bind, Option.bind_some]
    cases hstart : Lexer.startsReference (join front).getLast? (p :: rest) with
    | true => rfl
    | false =>
      simp only [Bool.false_eq_true, if_false]
      by_cases hkind : p.kind = .newline
      · rw [if_pos hkind, if_pos hkind]
      · rw [if_neg hkind, if_neg hkind]
        have hmore := ih h.next (i := i + 1) (by simp [hi])
        rw [h.getLast?_join] at hmore
        simpa [Nat.add_assoc] using hmore

end Over

end CheckedLexer

end PromptScript
