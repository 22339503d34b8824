import PromptScript.Document.Parser
import PromptScript.Proofs.Composition.Moves

/-!
# Further down a script

Where a script stands makes no difference to what it says: items that stand so many lines further
down lead to the same document and the same reports, with their places so many lines further down,
after whatever is there already.
-/

namespace PromptScript

variable (n : Nat)

/-- The place so many lines further down. -/
def Position.down (p : Position) : Position :=
  ⟨p.line + n, p.column⟩

/-- The part of a script so many lines further down. -/
def Span.down (span : Span) : Span :=
  ⟨span.start.down n, span.stop.down n⟩

namespace Position

/-- Places so many lines further down are in the same order. -/
theorem down_le_down_iff (p q : Position) : p.down n ≤ q.down n ↔ p ≤ q := by
  change _ ∨ _ ↔ _ ∨ _
  simp only [down]
  omega

/-- A text advances a place further down as it advances the place. -/
theorem advance_down (p : Position) (t : Text) : (p.down n).advance t = (p.advance t).down n := by
  induction t generalizing p with
  | nil => rfl
  | cons c t ih =>
    have hnext : (p.down n).next c = (p.next c).down n := by
      unfold next
      split
      · simp [down, Nat.add_right_comm]
      · rfl
    exact (congrArg (advance · t) hnext).trans (ih (p.next c))

/-- The earlier of two places is so further down. -/
theorem earlier_down (p q : Position) :
    (p.down n).earlier (q.down n) = (p.earlier q).down n := by
  simp only [earlier, down_le_down_iff]
  split <;> rfl

/-- The later of two places is so further down. -/
theorem later_down (p q : Position) : (p.down n).later (q.down n) = (p.later q).down n := by
  simp only [later, down_le_down_iff]
  split <;> rfl

end Position

/-- A span that covers two covers them further down. -/
@[simp] theorem Span.merge_down (a b : Span) :
    (a.down n).merge (b.down n) = (a.merge b).down n := by
  simp only [merge, down, Position.earlier_down, Position.later_down]

/-- A token so many lines further down. -/
def Token.down (t : Token) : Token :=
  { t with place := t.place.down n }

/-- A token further down is of the same kind. -/
@[simp] theorem Token.kind_down (t : Token) : (t.down n).kind = t.kind := rfl

/-- A token further down has the same text. -/
@[simp] theorem Token.text_down (t : Token) : (t.down n).text = t.text := rfl

/-- A token further down is as blank as it was. -/
@[simp] theorem Token.isBlank_down (t : Token) : (t.down n).isBlank = t.isBlank := rfl

/-- A token ends a line wherever it stands. -/
@[simp] theorem Token.endsLine_down (t : Token) : (t.down n).endsLine = t.endsLine := rfl

/-- The span of a token goes down with it. -/
@[simp] theorem Token.span_down (t : Token) : (t.down n).span = t.span.down n := by
  simp [span, Span.down, down, Position.advance_down]

/-- What follows a target, so many lines further down. -/
def Item.Tail.down : Item.Tail → Item.Tail
  | .none => .none
  | .braced opening inner closing =>
    .braced (opening.down n) (inner.map (Token.down n)) (closing.map (Token.down n))
  | .unterminated mark recovered => .unterminated (mark.down n) (recovered.map (Token.down n))

/-- An item so many lines further down. -/
def Item.down : Item → Item
  | .header t kind => .header (t.down n) kind
  | .statement keyword rest => .statement (keyword.down n) (rest.map (Token.down n))
  | .text t => .text (t.down n)
  | .reference start name target tail =>
    .reference (start.down n) (name.map (Token.down n)) (target.map (Token.down n)) (tail.down n)
  | .stray t skipped => .stray (t.down n) (skipped.map (Token.down n))

/-- Going down changes nothing of a token but its place. -/
theorem Token.onlyMoves_down : OnlyMoves (down n) :=
  ⟨fun _ => rfl, fun _ => rfl⟩

/-- An item goes down with each of its tokens. -/
theorem Item.down_eq_map : down n = map (Token.down n) := by
  funext item
  cases item with
  | reference start name target tail => cases tail <;> rfl
  | _ => rfl

/-- A report so many lines further down. -/
def Diagnostic.down (x : Diagnostic) : Diagnostic :=
  { x with line := x.line.map (· + n) }

/-- A section so many lines further down. -/
def Section.down (s : Section) : Section :=
  { s with span := s.span.down n }

/-- A reference so many lines further down. -/
def Reference.down (r : Reference) : Reference :=
  { r with span := r.span.down n }

/-- A block so many lines further down. -/
def BlockStatement.down (b : BlockStatement) : BlockStatement :=
  { b with span := b.span.down n }

/-- A call so many lines further down. -/
def ApiCallStatement.down (c : ApiCallStatement) : ApiCallStatement :=
  { c with span := c.span.down n }

/-- What a script says, so many lines further down. -/
def Document.down (d : Document) : Document :=
  ⟨d.sections.map (Section.down n), d.references.map (Reference.down n),
    d.blocks.map (BlockStatement.down n), d.apiCalls.map (ApiCallStatement.down n)⟩

/-- What two scripts say, one after the other. -/
def Document.append (a b : Document) : Document :=
  ⟨a.sections ++ b.sections, a.references ++ b.references, a.blocks ++ b.blocks,
    a.apiCalls ++ b.apiCalls⟩

/-- A document and its reports so many lines further down. -/
def Parsed.down (p : Parsed) : Parsed :=
  ⟨p.document.down n, p.diagnostics.map (Diagnostic.down n)⟩

/-- Two documents with their reports, one after the other. -/
def Parsed.append (a b : Parsed) : Parsed :=
  ⟨a.document.append b.document, a.diagnostics ++ b.diagnostics⟩

/-- The report of a problem goes down with the place where it is. -/
@[simp] theorem Document.Problem.diagnostic_down (problem : Document.Problem) (span : Span) :
    problem.diagnostic (span.down n) = (problem.diagnostic span).down n := rfl

/-- An open section so many lines further down. -/
def OpenSection.down (s : OpenSection) : OpenSection :=
  { s with span := s.span.down n }

/-- An open block so many lines further down. -/
def OpenBlock.down (b : OpenBlock) : OpenBlock :=
  { b with span := b.span.down n }

/-- Text that is added to a block is added to it further down. -/
theorem OpenBlock.edit_down (b : OpenBlock) (change : TextBuffer → TextBuffer) :
    (b.down n).edit change = (b.edit change).down n := by
  simp only [edit, down]
  split <;> rfl

namespace Draft

/-- The draft so many lines further down, after what a document and its reports hold already. -/
def onto (base : Parsed) (d : Draft) : Draft where
  document := base.document.append (d.document.down n)
  diagnostics := base.diagnostics ++ d.diagnostics.map (Diagnostic.down n)
  openSection := d.openSection.map (OpenSection.down n)
  openBlock := d.openBlock.map (OpenBlock.down n)
  lineBlank := d.lineBlank
  lineHasReference := d.lineHasReference

variable (base : Parsed) (d : Draft)

/-- A report further down is the report so many lines further down. -/
@[simp] theorem report_onto (problem : Document.Problem) (span : Span) :
    (d.onto n base).report problem (span.down n) = (d.report problem span).onto n base := by
  simp [report, onto]

/-- What is known of the line has no place. -/
@[simp] theorem setLine_onto (blank hasReference : Bool) :
    (d.onto n base).setLine blank hasReference = (d.setLine blank hasReference).onto n base := rfl

/-- Text is collected without regard to its place. -/
@[simp] theorem edit_onto (change : TextBuffer → TextBuffer) :
    (d.onto n base).edit change = (d.edit change).onto n base := by
  cases hb : d.openBlock with
  | some b => simp [edit, onto, hb, OpenBlock.edit_down]
  | none =>
    cases hs : d.openSection with
    | some s => simp [edit, onto, hb, hs, OpenSection.down]
    | none => simp [edit, onto, hb, hs]

/-- Ending a section gives one that is so many lines further down. -/
@[simp] theorem finishSection_onto :
    (d.onto n base).finishSection = d.finishSection.onto n base := by
  cases hs : d.openSection with
  | some s =>
    simp [finishSection, onto, hs, OpenSection.down, Document.append, Document.down, Section.down]
  | none => simp [finishSection, onto, hs]

/-- A block that is added further down is so many lines further down. -/
@[simp] theorem addBlock_onto (block : Block) (span : Span) :
    (d.onto n base).addBlock block (span.down n) = (d.addBlock block span).onto n base := by
  simp [addBlock, onto, Document.append, Document.down, BlockStatement.down]

/-- Closing an unfinished block reports it so many lines further down. -/
@[simp] theorem closeUnfinished_onto :
    (d.onto n base).closeUnfinished = d.closeUnfinished.onto n base := by
  cases hb : d.openBlock with
  | some b =>
    have honto : (d.onto n base).openBlock = some (b.down n) := by simp [onto, hb]
    have hblock : (b.down n).block = b.block := rfl
    have hspan : (b.down n).span = b.span.down n := rfl
    simp [closeUnfinished, hb, honto, hblock, hspan]
  | none =>
    have honto : (d.onto n base).openBlock = none := by simp [onto, hb]
    simp [closeUnfinished, hb, honto]

/-- Closing all that is open gives the same parts so many lines further down. -/
@[simp] theorem closeAll_onto : (d.onto n base).closeAll = d.closeAll.onto n base := by
  simp [closeAll]

/-- A section is extended to the same span so many lines further down. -/
@[simp] theorem extendSection_onto (span : Span) :
    (d.onto n base).extendSection (span.down n) = (d.extendSection span).onto n base := by
  simp [extendSection, onto, Function.comp_def, OpenSection.down]

/-- A fragment of text does the same further down. -/
@[simp] theorem text_onto (t : Token) :
    (d.onto n base).text (t.down n) = (d.text t).onto n base := by
  unfold text
  by_cases hblank : d.lineBlank = true ∧ t.isBlank = true ∧ t.endsLine = true
  · have hdown : (d.onto n base).lineBlank = true ∧ (t.down n).isBlank = true ∧
        (t.down n).endsLine = true := hblank
    rw [if_pos hblank, if_pos hdown]
    by_cases hreference : d.lineHasReference = true
    · have hmarked : (d.onto n base).lineHasReference = true := hreference
      rw [if_pos hreference, if_pos hmarked, edit_onto]
      rfl
    · have hunmarked : ¬(d.onto n base).lineHasReference = true := hreference
      rw [if_neg hreference, if_neg hunmarked]
      cases hb : d.openBlock with
      | some b =>
        have honto : (d.onto n base).openBlock = some (b.down n) := by simp [onto, hb]
        simp only [honto, OpenBlock.edit_down]
        rfl
      | none =>
        have honto : (d.onto n base).openBlock = none := by simp [onto, hb]
        simp only [honto, finishSection_onto]
  · have hdown : ¬((d.onto n base).lineBlank = true ∧ (t.down n).isBlank = true ∧
        (t.down n).endsLine = true) := hblank
    rw [if_neg hblank, if_neg hdown]
    by_cases htext : t.isBlank = true
    · have hspace : (t.down n).isBlank = true := htext
      simp only [if_pos htext, if_pos hspace, edit_onto]
      rfl
    · have hspace : ¬(t.down n).isBlank = true := htext
      simp only [if_neg htext, if_neg hspace, Token.span_down, extendSection_onto, edit_onto]
      rfl

/-- A block is opened further down, or its opening is reported there. -/
@[simp] theorem openNew_onto (opening : Opening) (span : Span) (rest : Text) :
    (d.onto n base).openNew opening (span.down n) rest = (d.openNew opening span rest).onto n base := by
  cases hb : d.openBlock with
  | some b =>
    have honto : (d.onto n base).openBlock = some (b.down n) := by simp [onto, hb]
    simp [openNew, hb, honto]
  | none =>
    have honto : (d.onto n base).openBlock = none := by simp [onto, hb]
    simp only [openNew, hb, honto]
    rfl

/-- IF does the same further down. -/
@[simp] theorem conditional_onto (span : Span) (arguments : Text) :
    (d.onto n base).conditional (span.down n) arguments =
      (d.conditional span arguments).onto n base := by
  unfold conditional
  split <;> simp

/-- FOR EACH does the same further down. -/
@[simp] theorem forEach_onto (span : Span) (arguments : Text) :
    (d.onto n base).forEach (span.down n) arguments = (d.forEach span arguments).onto n base := by
  unfold forEach
  split <;> simp

/-- ELSE does the same further down. -/
@[simp] theorem otherwise_onto (span : Span) (arguments : Text) :
    (d.onto n base).otherwise (span.down n) arguments = (d.otherwise span arguments).onto n base := by
  cases hb : d.openBlock with
  | none =>
    have honto : (d.onto n base).openBlock = none := by simp [onto, hb]
    simp [otherwise, hb, honto]
  | some b =>
    have honto : (d.onto n base).openBlock = some (b.down n) := by simp [onto, hb]
    obtain ⟨opening, body, alternative, opened⟩ := b
    cases opening with
    | conditional condition =>
      cases alternative with
      | none =>
        simp only [otherwise, hb, honto, OpenBlock.down]
        rfl
      | some text => simp [otherwise, hb, honto, OpenBlock.down]
    | forEach item collection => simp [otherwise, hb, honto, OpenBlock.down]
    | onError => simp [otherwise, hb, honto, OpenBlock.down]

/-- END does the same further down. -/
@[simp] theorem finish_onto (keyword span : Span) :
    (d.onto n base).finish (keyword.down n) (span.down n) = (d.finish keyword span).onto n base := by
  cases hb : d.openBlock with
  | none =>
    have honto : (d.onto n base).openBlock = none := by simp [onto, hb]
    simp [finish, hb, honto]
  | some b =>
    have honto : (d.onto n base).openBlock = some (b.down n) := by simp [onto, hb]
    have hblock : (b.down n).block = b.block := rfl
    have hspan : (b.down n).span = b.span.down n := rfl
    simp only [finish, hb, honto, hblock, hspan, Span.merge_down, addBlock_onto]

/-- CALL API does the same further down. -/
@[simp] theorem callApi_onto (span : Span) (arguments : Text) :
    (d.onto n base).callApi (span.down n) arguments = (d.callApi span arguments).onto n base := by
  unfold callApi
  split
  · simp [onto, Document.append, Document.down, ApiCallStatement.down]
  · simp

/-- A statement does the same further down, whichever it is. -/
theorem statement_onto (keyword : Token) (rest : Option Token) :
    (d.onto n base).statement (keyword.down n) (rest.map (Token.down n)) =
      (d.statement keyword rest).onto n base := by
  cases rest with
  | none =>
    simp only [statement, Option.map_none, Token.text_down, Token.span_down, finishSection_onto,
      setLine_onto]
    split <;> simp
  | some line =>
    have hspan : (if line.isBlank then keyword.span.down n
        else (keyword.span.down n).merge (line.span.down n)) =
          Span.down n (if line.isBlank then keyword.span else keyword.span.merge line.span) := by
      rw [Span.merge_down]
      split <;> rfl
    simp only [statement, Option.map_some, Token.text_down, Token.span_down, Token.isBlank_down,
      finishSection_onto, setLine_onto, hspan]
    split <;> simp

/-- What tokens cover goes down with them. -/
theorem coverTokens_down (span : Span) (tokens : List Token) :
    coverTokens (span.down n) (tokens.map (Token.down n)) = (coverTokens span tokens).down n := by
  induction tokens generalizing span with
  | nil => rfl
  | cons t tokens ih =>
    have hmerge : (span.down n).merge (t.down n).span = (span.merge t.span).down n := by simp
    exact (congrArg (coverTokens · _) hmerge).trans (ih _)

/-- The body of a reference is taken the same way further down. -/
theorem tail_onto (kind : Text) (span : Span) (tail : Item.Tail) :
    (d.onto n base).tail kind (span.down n) (tail.down n) =
      ((d.tail kind span tail).1.onto n base, (d.tail kind span tail).2.1,
        (d.tail kind span tail).2.2.down n) := by
  cases tail with
  | none => rfl
  | braced opening inner closing =>
    have hcover : inner.map (Token.down n) ++ (closing.map (Token.down n)).toList =
        (inner ++ closing.toList).map (Token.down n) := by
      cases closing <;> simp
    simp only [Draft.tail, Item.Tail.down, Item.textOf_map (Token.onlyMoves_down n), hcover, coverTokens_down, Item.deepBrace?_map (Token.onlyMoves_down n)]
    cases deepBrace? 1 inner <;> simp
  | unterminated mark recovered =>
    have hlast : (recovered.map (Token.down n)).getLast?.any Token.endsLine =
        recovered.getLast?.any Token.endsLine := by
      rw [List.getLast?_map, Option.any_map]
      rfl
    have hcover := coverTokens_down n span (mark :: recovered)
    rw [List.map_cons] at hcover
    have hmark : (mark.down n).text = mark.text := rfl
    simp only [Draft.tail, Item.Tail.down, Item.textOf_map (Token.onlyMoves_down n), hcover, hlast, hmark, Token.span_down,
      report_onto, edit_onto]
    by_cases hline : recovered.getLast?.any Token.endsLine = true
    · by_cases hblank : d.lineBlank = true
      · have hdown : (d.onto n base).lineBlank = true := hblank
        simp only [if_pos hline, if_pos hblank, if_pos hdown, setLine_onto]
      · have hdown : ¬(d.onto n base).lineBlank = true := hblank
        simp only [if_pos hline, if_neg hblank, if_neg hdown, setLine_onto]
    · simp only [if_neg hline]

/-- A reference does the same further down. -/
theorem reference_onto (start : Token) (name target : Option Token) (tail : Item.Tail) :
    (d.onto n base).reference (start.down n) (name.map (Token.down n)) (target.map (Token.down n))
      (tail.down n) = (d.reference start name target tail).onto n base := by
  have hmarked : { d.onto n base with lineHasReference := true } =
      ({ d with lineHasReference := true }).onto n base := rfl
  have hcover : coverTokens (start.span.down n)
      ((name.map (Token.down n)).toList ++ (target.map (Token.down n)).toList) =
        (coverTokens start.span (name.toList ++ target.toList)).down n := by
    rw [← coverTokens_down]
    cases name <;> cases target <;> rfl
  have hname : ((name.map (Token.down n)).map (·.text)).getD [] = (name.map (·.text)).getD [] := by
    simp [Function.comp_def]
  have htarget : ((target.map (Token.down n)).map fun t => Text.trimChar '"' t.text) =
      target.map fun t => Text.trimChar '"' t.text := by
    simp [Function.comp_def]
  unfold reference
  simp only [hmarked, hname, htarget, Option.isSome_map, Token.span_down, hcover, tail_onto]
  simp [onto, Document.append, Document.down, Reference.down]

/-- A stray token does the same further down. -/
theorem stray_onto (t : Token) (skipped : List Token) :
    (d.onto n base).stray (t.down n) (skipped.map (Token.down n)) =
      (d.stray t skipped).onto n base := by
  have hlast : (skipped.map (Token.down n)).getLast?.any Token.endsLine =
      skipped.getLast?.any Token.endsLine := by
    rw [List.getLast?_map, Option.any_map]
    rfl
  unfold stray
  simp only [hlast, Token.kind_down, Token.text_down, Token.endsLine_down, Token.span_down,
    closeAll_onto]
  split
  · split <;> simp
  · split <;> simp

/-- An item further down has the same effect further down. -/
theorem apply_onto (item : Item) :
    (d.onto n base).apply (item.down n) = (d.apply item).onto n base := by
  cases item with
  | header t kind =>
    simp only [apply, Item.down, closeAll_onto, Token.span_down]
    rfl
  | statement keyword rest => exact statement_onto n base d keyword rest
  | text t => exact text_onto n base d t
  | reference start name target tail => exact reference_onto n base d start name target tail
  | stray t skipped => exact stray_onto n base d t skipped

/-- Items further down have the same effect further down. -/
theorem applyAll_onto (items : List Item) :
    (d.onto n base).applyAll (items.map (Item.down n)) = (d.applyAll items).onto n base := by
  induction items generalizing d with
  | nil => rfl
  | cons item items ih =>
    have hstep := apply_onto n base d item
    exact (congrArg (applyAll · _) hstep).trans (ih _)

/-- What is still open ends further down as it does here. -/
theorem close_onto : (d.onto n base).close = d.close.onto n base := by
  simp [close]

end Draft

end PromptScript
