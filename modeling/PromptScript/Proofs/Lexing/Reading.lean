import PromptScript.Proofs.Lexing.Phrase

/-!
# Reading phrases

The tokens that the lexer draws from running text are those of the phrase in front of the text,
laid out from the lexer's place on, and then those of the text after it.
-/

namespace PromptScript.Lexer

open Piece (scan isHorizontal)

/-- The lexer in a mode with the rest of a script ahead of it. -/
def ahead (mode : Mode) (lineStart : Bool) (before : Option Char) (p : Position) (rest : Text) :
    Lexer :=
  ⟨mode, lineStart, before, p, scan rest⟩

@[simp] theorem place_ahead (mode : Mode) (lineStart : Bool) (before : Option Char) (p : Position)
    (rest : Text) : (ahead mode lineStart before p rest).place = p := rfl

@[simp] theorem before_ahead (mode : Mode) (lineStart : Bool) (before : Option Char) (p : Position)
    (rest : Text) : (ahead mode lineStart before p rest).before = before := rfl

/-- Tokens are drawn one by one. -/
theorem tokens_of_next? {l : Lexer} {result : Token × Lexer} (h : l.next? = some result) :
    l.tokens = result.1 :: result.2.tokens := by
  rw [tokens]
  split
  · rename_i hnone
    rw [h] at hnone
    cases hnone
  · rename_i hsome
    rw [h] at hsome
    cases hsome
    rfl

/-- A lexer without a next token draws none. -/
theorem tokens_of_next?_eq_none {l : Lexer} (h : l.next? = none) : l.tokens = [] := by
  rw [tokens]
  split
  · rfl
  · rename_i hsome
    rw [h] at hsome
    cases hsome

/-- Lexers that draw the same next token draw the same tokens. -/
theorem tokens_congr {l m : Lexer} (h : l.next? = m.next?) : l.tokens = m.tokens := by
  cases hl : l.next? with
  | none => rw [tokens_of_next?_eq_none hl, tokens_of_next?_eq_none (h.symm.trans hl)]
  | some result => rw [tokens_of_next? hl, tokens_of_next? (h.symm.trans hl)]

/-- From a lexer the given stretches are read first, and then the text after them as running
text. -/
def Reads (l : Lexer) (ss : List Stretch) (lineStart : Bool) (after : Text) : Prop :=
  l.tokens = Stretch.tokens l.place ss ++
    (ahead .text lineStart ((Stretch.join ss).getLast?.or l.before)
      (l.place.advance (Stretch.join ss)) after).tokens

namespace Reads

variable {l : Lexer} {ss : List Stretch} {lineStart ls : Bool} {after : Text}

/-- Running text is read without any stretch before it. -/
theorem refl (lineStart : Bool) (before : Option Char) (p : Position) (rest : Text) :
    Reads (ahead .text lineStart before p rest) [] lineStart rest :=
  rfl

/-- Lexers that draw the same next token at one place read the same. -/
theorem congr {m : Lexer} (h : Reads m ss lineStart after) (hnext : l.next? = m.next?)
    (hplace : l.place = m.place) (hbefore : l.before = m.before) : Reads l ss lineStart after := by
  rw [Reads, tokens_congr hnext, hplace, hbefore]
  exact h

/-- White space that is passed before a token is a gap. -/
theorem gap {s text : Text} {kind : Token.Kind} (ps : List Piece) {qs : List Piece} {mode : Mode}
    (hnext : l.next? = some ((l.pass s ps).emit kind text qs mode ls))
    (h : Reads ((l.pass s ps).emit kind text qs mode ls).2 ss lineStart after) :
    Reads l (Stretch.ofGap s ++ .token kind text :: ss) lineStart after := by
  rw [Reads, tokens_of_next? hnext, h, Stretch.tokens_append]
  have htokens : Stretch.tokens l.place (Stretch.ofGap s) = [] := by
    cases s <;> rfl
  simp only [htokens, Stretch.join_append, Stretch.join_ofGap, Stretch.join_cons, Stretch.text,
    Stretch.tokens, List.nil_append, List.cons_append, List.getLast?_append, Option.or_assoc,
    Position.advance_append, emit, pass]

/-- A token that is emitted is a stretch. -/
theorem emit {text : Text} {kind : Token.Kind} {qs : List Piece} {mode : Mode}
    (hnext : l.next? = some (l.emit kind text qs mode ls))
    (h : Reads (l.emit kind text qs mode ls).2 ss lineStart after) :
    Reads l (.token kind text :: ss) lineStart after :=
  gap (s := []) _ hnext h

end Reads

variable {lineStart : Bool} {before : Option Char} {p : Position} {rest : Text}

/-- Where no comment begins, none is passed. -/
theorem skipComments_of_not_startsComment {l : Lexer} (h : startsComment l.pieces = false) :
    l.skipComments = l := by
  rw [skipComments, dif_neg (by simp [h])]

/-- A comment is passed with its whole line, and then those after it. -/
theorem skipComments_of_startsComment {l : Lexer} (h : startsComment l.pieces = true) :
    l.skipComments = (l.pass (splitLine l.pieces).1 (splitLine l.pieces).2).skipComments := by
  rw [skipComments, dif_pos h]

/-- A line begins with text exactly if it is no comment and no construct of line starts. -/
theorem opensLine_eq_false_iff {l : Lexer} :
    opensLine l.pieces = false ↔ startsComment l.pieces = false ∧ l.leading? = none := by
  unfold opensLine leading?
  cases startsComment l.pieces <;> cases hh : header? (splitSpace l.pieces).2 <;>
    cases hs : statement? (splitSpace l.pieces).2 <;>
      cases hr : startsReference (splitSpace l.pieces).1.getLast? (splitSpace l.pieces).2 <;>
        cases hn : (splitSpace l.pieces).1.isEmpty <;> simp [hh, hs, hr, hn]

/-- A line that begins with text is read as running text. -/
theorem inText_of_not_opensLine {l : Lexer}
    (h : l.lineStart = true → opensLine l.pieces = false) : l.inText = l.running := by
  unfold inText
  split
  · rename_i hline
    obtain ⟨hcomment, hleading⟩ := opensLine_eq_false_iff.mp (h hline)
    rw [skipComments_of_not_startsComment hcomment, hleading]
  · rfl

/-- Running text is read alike in every mode. -/
theorem running_ahead (mode : Mode) (lineStart : Bool) (before : Option Char) (p : Position)
    (rest : Text) :
    (ahead mode lineStart before p rest).running = (ahead .text lineStart before p rest).running := by
  unfold running ahead
  cases scan rest <;> rfl

/-- Nothing opens a line at the end of a script. -/
theorem opensLine_scan_nil : opensLine (scan []) = false := by
  simp [opensLine, startsComment, splitSpace, header?, statement?]

/-- Where a line begins with text, the lexer in running text reads on. -/
theorem next?_ahead_text (h : lineStart = true → opensLine (scan rest) = false) :
    (ahead .text lineStart before p rest).next? =
      some (ahead .text lineStart before p rest).running := by
  rw [← inText_of_not_opensLine h]
  rfl

/-- At the start of a line that is no comment, a construct of line starts goes before running text.
-/
theorem inText_of_leading? {l : Lexer} {result : Token × Lexer} (hline : l.lineStart = true)
    (hcomment : startsComment l.pieces = false) (h : l.leading? = some result) :
    l.inText = result := by
  rw [inText, if_pos hline, skipComments_of_not_startsComment hcomment, h]

/-- Past the end of a script there is one last token. -/
theorem tokens_ahead_nil : (ahead .text lineStart before p []).tokens = [⟨.eof, [], p⟩] := by
  have hnext : (ahead .text lineStart before p []).next? =
      some ((ahead .text lineStart before p []).emit .eof [] [] .done lineStart) := by
    rw [next?_ahead_text fun _ => opensLine_scan_nil]
    simp [running, ahead]
  rw [tokens_of_next? hnext, tokens_of_next?_eq_none rfl]
  rfl

/-- What the lexer looks for at the start of a line does not begin with white space. -/
theorem stops_isHorizontal_of_leads {lead : Text} {before : Option Char}
    (h : Leads before (scan lead)) : Piece.stops isHorizontal lead = true := by
  cases lead with
  | nil => rfl
  | cons c lead =>
    cases hc : isHorizontal c with
    | false => simp [Piece.stops, hc]
    | true =>
      have hkind : (Piece.first c lead).1.kind = .space := by
        have hsplit : Text.isSpace c = true ∧ c ≠ '\n' := by simpa [isHorizontal] using hc
        simp [Piece.first, hsplit]
      rw [Piece.scan_cons] at h
      simp [Leads, header?, statement?, startsReference, hkind, secondWord?] at h

/-- No construct that an indent may stand before begins with white space. -/
theorem not_leads_of_isHorizontal {space lead : Text} {before : Option Char}
    (hne : space ≠ []) (hspace : space.all isHorizontal = true) :
    ¬Leads before (scan (space ++ lead)) := by
  intro h
  have hstops := stops_isHorizontal_of_leads h
  cases space with
  | nil => exact absurd rfl hne
  | cons c space =>
    have hc : isHorizontal c = true := (Bool.and_eq_true_iff.mp hspace).1
    simp [Piece.stops, hc] at hstops

/-- White space is taken from the pieces of a text up to where something else stands. -/
theorem splitSpace_append {space lead : Text} (hspace : space.all isHorizontal = true)
    (hlead : Piece.stops isHorizontal lead = true) :
    splitSpace (scan (space ++ lead)) = (space, scan lead) := by
  rw [splitSpace_scan, Piece.takeWhile_append_of_stops hspace hlead,
    Piece.dropWhile_append_of_stops hspace hlead]

/-- What the lexer looks for at the start of a line makes the line no comment. -/
theorem not_startsComment_of_leads {space lead : Text} {before : Option Char}
    (hspace : space.all isHorizontal = true)
    (h : Leads before (scan lead)) : startsComment (scan (space ++ lead)) = false := by
  rw [startsComment, splitSpace_append hspace (stops_isHorizontal_of_leads h)]
  cases hlead : scan lead with
  | nil => rfl
  | cons q qs =>
    rw [hlead] at h
    simp only [List.head?_cons, Option.any_some]
    by_cases hq : q.kind = .hash
    · simp [Leads, header?, statement?, startsReference, hq, secondWord?] at h
    · simpa using hq

/-- A lexer at the start of a line draws the construct that it finds there. -/
theorem next?_of_leading? {result : Token × Lexer} (hcomment : startsComment (scan rest) = false)
    (h : (ahead .text true before p rest).leading? = some result) :
    (ahead .text true before p rest).next? = some result := by
  rw [← inText_of_leading? rfl hcomment h]
  rfl

/-- A comment line gives no tokens. -/
theorem reads_comment (h : startsComment (scan rest) = true) :
    Reads (ahead .text true before p rest) [.comment (Text.cutLine rest).1] true
      (Text.cutLine rest).2 := by
  have hskip : (ahead .text true before p rest).skipComments =
      (ahead .text true ((Text.cutLine rest).1.getLast?.or before)
        (p.advance (Text.cutLine rest).1) (Text.cutLine rest).2).skipComments := by
    rw [skipComments_of_startsComment h]
    simp only [ahead, pass, splitLine_scan]
  have hnext : (ahead .text true before p rest).next? =
      (ahead .text true ((Text.cutLine rest).1.getLast?.or before)
        (p.advance (Text.cutLine rest).1) (Text.cutLine rest).2).next? := by
    simp only [next?, ahead, inText, if_true] at hskip ⊢
    rw [hskip]
  rw [Reads, tokens_congr hnext]
  simp [Stretch.tokens, Stretch.text, ahead]

/-- An indent is a token of its own if a construct of line starts or a reference follows it. -/
theorem reads_indent {space lead : Text} (hne : space ≠ [])
    (hspace : space.all isHorizontal = true) (h : Leads space.getLast? (scan lead)) :
    Reads (ahead .text true before p (space ++ lead)) [.token .text space] true lead := by
  have hleading : (ahead .text true before p (space ++ lead)).leading? =
      some ((ahead .text true before p (space ++ lead)).emit .text space (scan lead) .text true) := by
    simp only [leading?, ahead, splitSpace_append hspace (stops_isHorizontal_of_leads h)]
    rw [if_pos]
    simpa [hne, or_assoc, Leads] using h
  exact .emit (next?_of_leading? (not_startsComment_of_leads hspace h) hleading) (.refl ..)

/-- What stands at the very start of a line has no white space before it. -/
theorem atStart_of_leads (h : Leads before (scan rest)) :
    splitSpace (scan rest) = ([], scan rest) ∧ startsComment (scan rest) = false := by
  have hsplit : splitSpace (scan ([] ++ rest)) = ([], scan rest) :=
    splitSpace_append rfl (stops_isHorizontal_of_leads h)
  have hcomment : startsComment (scan ([] ++ rest)) = false := not_startsComment_of_leads rfl h
  exact ⟨hsplit, hcomment⟩

/-- A header is one token. -/
theorem reads_header {text after : Text} (h : header? (scan rest) = some (text, scan after)) :
    Reads (ahead .text true before p rest) [.token .sectionKeyword text] false after := by
  have hleads : Leads before (scan rest) := Or.inl (Option.isSome_of_eq_some h)
  obtain ⟨hsplit, hcomment⟩ := atStart_of_leads hleads
  have hleading : (ahead .text true before p rest).leading? =
      some ((ahead .text true before p rest).emit .sectionKeyword text (scan after) .text false) := by
    simp [leading?, ahead, hsplit, h]
  exact .emit (next?_of_leading? hcomment hleading) (.refl ..)

/-- A statement keyword is no header. -/
theorem header?_of_statement? {ps : List Piece} (h : (statement? ps).isSome) : header? ps = none := by
  cases ps with
  | nil => rfl
  | cons q qs =>
    rw [header?, if_neg]
    intro hq
    simp [statement?, hq, secondWord?] at h

/-- Past the keyword of a statement the rest of its line is one token, if there is any. -/
theorem reads_restOfLine (rest : Text) :
    Reads (ahead .statement lineStart before p rest) (Stretch.ofText .text (Text.cutLine rest).1)
      true (Text.cutLine rest).2 := by
  cases rest with
  | nil =>
    have hnext : (ahead .statement lineStart before p []).next? =
        (ahead .text true before p []).next? := by
      have hrun := running_ahead .statement true before p []
      rw [next?_ahead_text fun _ => opensLine_scan_nil, ← hrun,
        ← inText_of_not_opensLine fun _ => opensLine_scan_nil]
      simp [next?, ahead, inStatement]
    exact .congr (.refl ..) hnext rfl rfl
  | cons c rest =>
    have hne : (Text.cutLine (c :: rest)).1 ≠ [] := by
      rw [Text.cutLine]
      split <;> simp
    have hline := splitLine_scan (c :: rest)
    have hnext : (ahead .statement lineStart before p (c :: rest)).next? =
        some ((ahead .statement lineStart before p (c :: rest)).emit .text
          (Text.cutLine (c :: rest)).1 (scan (Text.cutLine (c :: rest)).2) .text true) := by
      rw [ahead, Piece.scan_cons] at *
      simp only [next?, inStatement, hline]
    rw [Stretch.ofText, if_neg (by simpa using hne)]
    exact .emit hnext (.refl ..)

/-- A statement is its keyword and, unless the script ends there, the rest of the line. -/
theorem reads_statement {text mid : Text} (h : statement? (scan rest) = some (text, scan mid)) :
    Reads (ahead .text true before p rest)
      (.token .statementKeyword text :: Stretch.ofText .text (Text.cutLine mid).1) true
      (Text.cutLine mid).2 := by
  have hleads : Leads before (scan rest) := Or.inr (Or.inl (Option.isSome_of_eq_some h))
  obtain ⟨hsplit, hcomment⟩ := atStart_of_leads hleads
  have hleading : (ahead .text true before p rest).leading? =
      some ((ahead .text true before p rest).emit .statementKeyword text (scan mid) .statement
        false) := by
    simp [leading?, ahead, hsplit, h, header?_of_statement? (Option.isSome_of_eq_some h)]
  exact .emit (next?_of_leading? hcomment hleading) (reads_restOfLine mid)

/-- A fragment of text is one token. -/
theorem reads_text {text after : Text} (hne : rest ≠ [])
    (hline : lineStart = true → opensLine (scan rest) = false)
    (hstart : startsReference before (scan rest) = false)
    (h : splitText before (scan rest) = (text, scan after)) :
    Reads (ahead .text lineStart before p rest) [.token .text text]
      (Text.endsLine text || (lineStart && Text.isBlank text)) after := by
  have hrun : (ahead .text lineStart before p rest).running =
      (ahead .text lineStart before p rest).emit .text text (scan after) .text
        (Text.endsLine text || (lineStart && Text.isBlank text)) := by
    cases rest with
    | nil => exact absurd rfl hne
    | cons c rest =>
      rw [ahead, Piece.scan_cons] at *
      simp only [running, hstart, h]
      rfl
  have hnext : (ahead .text lineStart before p rest).next? =
      some ((ahead .text lineStart before p rest).emit .text text (scan after) .text
        (Text.endsLine text || (lineStart && Text.isBlank text))) := by
    rw [← hrun, ← inText_of_not_opensLine hline]
    rfl
  exact .emit hnext (.refl ..)

/-- In the body of a reference the lexer reads up to the brace that closes it. -/
theorem Body.reads {depth : Nat} {after : Text} {ss : List Stretch} (h : Body depth rest ss after) :
    Reads (ahead (.body depth) lineStart before p rest) ss lineStart after := by
  induction h generalizing before p with
  | @close depth rest hdepth =>
    have hnext : (ahead (.body depth) lineStart before p ('}' :: rest)).next? =
        some ((ahead (.body depth) lineStart before p ('}' :: rest)).emit .braceClose ['}'] (scan rest)
          .text lineStart) := by
      simp [next?, ahead, inBody, Piece.scan_rightBrace, hdepth]
    exact .emit hnext (.refl ..)
  | @leave depth rest after ss hdepth _ ih =>
    have hnext : (ahead (.body depth) lineStart before p ('}' :: rest)).next? =
        some ((ahead (.body depth) lineStart before p ('}' :: rest)).emit .braceClose ['}'] (scan rest)
          (.body (depth - 1)) lineStart) := by
      simp [next?, ahead, inBody, Piece.scan_rightBrace, Nat.not_le.mpr hdepth]
    exact .emit hnext ih
  | @enter depth rest after ss _ ih =>
    have hnext : (ahead (.body depth) lineStart before p ('{' :: rest)).next? =
        some ((ahead (.body depth) lineStart before p ('{' :: rest)).emit .braceOpen ['{'] (scan rest)
          (.body (depth + 1)) lineStart) := by
      simp [next?, ahead, inBody, Piece.scan_leftBrace]
    exact .emit hnext ih
  | @fragment depth rest text mid after ss hne hcut _ ih =>
    have hnext : (ahead (.body depth) lineStart before p rest).next? =
        some ((ahead (.body depth) lineStart before p rest).emit .text text (scan mid) (.body depth)
          lineStart) := by
      cases rest with
      | nil =>
        cases hcut
        exact absurd rfl hne
      | cons c rest =>
        have hsplit := splitBody_scan (c :: rest)
        rw [hcut, Piece.scan_cons] at hsplit
        have hkind : (Piece.first c rest).1.kind ≠ .leftBrace ∧
            (Piece.first c rest).1.kind ≠ .rightBrace := by
          rw [splitBody] at hsplit
          constructor
          all_goals
            intro hkind
            rw [if_pos (by simp [hkind])] at hsplit
            exact hne (congrArg Prod.fst hsplit).symm
        rw [ahead, Piece.scan_cons]
        simp only [next?, inBody, hkind, if_false, hsplit]
    exact .emit hnext ih

/-- White space is taken from the pieces of a text up to a brace. -/
theorem splitSpace_brace {space : Text} (hspace : space.all isHorizontal = true) (rest : Text) :
    splitSpace (scan (space ++ '{' :: rest)) = (space, ⟨.leftBrace, ['{']⟩ :: scan rest) := by
  rw [splitSpace_append hspace rfl, Piece.scan_leftBrace]

/-- Past the target of a reference the lexer reads what may follow it. -/
theorem Tail.reads {mode : Mode} {after : Text} {ss : List Stretch} {body : Option Text}
    (h : Tail rest ss body after)
    (hnext : (ahead mode false before p rest).next? =
      some (ahead .afterTarget false before p rest).inReference) :
    Reads (ahead mode false before p rest) ss false after := by
  cases h with
  | bare hbrace =>
    have hsame : (ahead mode false before p rest).next? = (ahead .text false before p rest).next? := by
      rw [hnext, next?_ahead_text (by simp), ← running_ahead .afterTarget,
        ← inText_of_not_opensLine (by simp [ahead])]
      simp only [inReference, ahead, splitSpace_scan]
      cases hlead : rest.dropWhile isHorizontal with
      | nil => simp
      | cons c lead =>
        have hkind : (Piece.first c lead).1.kind ≠ .leftBrace := by
          intro hkind
          have hjoin := Piece.first_append c lead
          rw [(Piece.sound_first c lead).eq_leftBrace hkind] at hjoin
          rw [hlead] at hbrace
          exact hbrace (congrArg some (List.cons.inj hjoin).1.symm)
        simp [Piece.scan_cons, hkind]
    exact .congr (.refl ..) hsame rfl rfl
  | unclosed hspace hclose =>
    refine .gap (scan ('{' :: after)) (hnext.trans ?_) (.refl ..)
    simp only [inReference, ahead, splitSpace_brace hspace, closes_scan, hclose]
    rfl
  | @braced space rest _ after ss hspace hbody =>
    obtain ⟨inner, hclose, -⟩ := hbody.cut
    refine .gap (scan ('{' :: rest)) (hnext.trans ?_) hbody.reads
    simp only [inReference, ahead, splitSpace_brace hspace, closes_scan, hclose]
    rfl

/-- Past the name of a reference the lexer reads what is attached to it. -/
theorem Attachment.reads {mode : Mode} {colon : Bool} {after : Text} {ss : List Stretch}
    {target body : Option Text} (h : Attachment colon rest ss target body after) (hcolon : colon = (before == some ':'))
    (hnext : (ahead mode false before p rest).next? =
      some (ahead .afterName false before p rest).inName) :
    Reads (ahead mode false before p rest) ss false after := by
  cases h with
  | @target rest text mid after ss _ hcut htail =>
    have hbefore : before = some ':' := by simpa using hcolon
    have htarget : (ahead mode false before p ('"' :: rest)).next? =
        some ((ahead mode false before p ('"' :: rest)).emit .target ('"' :: text) (scan mid)
          .afterTarget false) := by
      rw [hnext]
      simp only [inName, ahead, Piece.scan_quote, hbefore, splitQuote?_scan, hcut]
      rfl
    exact .emit htarget (htail.reads rfl)
  | @unclosed rest hcut =>
    have hbefore : before = some ':' := by simpa using hcolon
    refine .emit (hnext.trans ?_) (.refl ..)
    simp only [inName, ahead, Piece.scan_quote, hbefore, splitQuote?_scan, hcut]
    rfl
  | plain hquote htail =>
    refine htail.reads (hnext.trans ?_)
    cases rest with
    | nil => simp [inName, inReference, ahead, splitSpace, inText, running]; rfl
    | cons c rest =>
      have hno : ¬((Piece.first c rest).1.kind = .quote ∧ before = some ':') := by
        rintro ⟨hkind, rfl⟩
        have hjoin := Piece.first_append c rest
        rw [(Piece.sound_first c rest).eq_quote hkind] at hjoin
        exact hquote (by simpa using hcolon) (congrArg some (List.cons.inj hjoin).1.symm)
      simp only [inName, ahead, Piece.scan_cons, hno, if_false]
      rfl

/-- An at sign opens no line. -/
theorem opensLine_at (rest : Text) : opensLine (scan ('@' :: rest)) = false := by
  have hfirst : (Piece.first '@' rest).1.kind = .at := by
    rw [Piece.first, if_neg (by decide), if_neg (by decide), if_pos rfl]
  simp [opensLine, startsComment, splitSpace, Piece.scan_cons, hfirst, header?, statement?,
    secondWord?]

/-- A reference is its at sign, its name if it has one, and what is attached to it. -/
theorem reads_reference {name after : Text} {ss : List Stretch} {target body : Option Text}
    (hname : name.all Text.isName = true) (hrest : Piece.stops Text.isName rest = true)
    (hstart : startsReference before (scan ('@' :: (name ++ rest))) = true)
    (h : Attachment (('@' :: name).getLast? == some ':') rest ss target body after) :
    Reads (ahead .text lineStart before p ('@' :: (name ++ rest)))
      (.token .referenceStart ['@'] :: (Stretch.ofText .identifier name ++ ss)) false after := by
  have hnext : (ahead .text lineStart before p ('@' :: (name ++ rest))).next? =
      some ((ahead .text lineStart before p ('@' :: (name ++ rest))).emit .referenceStart ['@']
        (scan rest) (.afterAt name) false) := by
    rw [next?_ahead_text fun _ => opensLine_at _]
    rw [Piece.scan_at hname hrest] at hstart
    simp only [running, ahead, Piece.scan_at hname hrest, hstart]
    rfl
  refine .emit hnext ?_
  cases name with
  | nil => exact h.reads rfl rfl
  | cons c name =>
    have hlast : ('@' :: c :: name).getLast? = (c :: name).getLast?.or (some '@') := by
      simp [List.getLast?_cons]
    exact .emit rfl (h.reads (by rw [hlast]; rfl) rfl)

/-- In running text the lexer reads the phrase in front of the text. -/
theorem Phrase.reads {ls : Bool} {after : Text} {ss : List Stretch}
    (h : Phrase lineStart before rest ss ls after) :
    Reads (ahead .text lineStart before p rest) ss ls after := by
  cases h with
  | comment h => exact reads_comment h
  | indent hne hspace h => exact reads_indent hne hspace h
  | header h => exact reads_header h
  | statement h => exact reads_statement h
  | reference hname hrest hstart h => exact reads_reference hname hrest hstart h
  | text hne hline hstart h => exact reads_text hne hline hstart h

end PromptScript.Lexer
