import PromptScript.Document.Parser
import PromptScript.Form.Basic
import PromptScript.Proofs.Parsing.Agreement

/-!
# Outlines

The outline of a draft is what is left of it without the places of its parts and without its
reports. The form of a script depends on the outline alone, and each item of a script changes the
outline by its texts alone.
-/

namespace PromptScript

/-- The form of a reference with a kind, a target and a body. -/
def FormReference.ofParts (kind : Text) (target : Option Text) (body : Text) : FormReference :=
  (⟨kind, target, body, Params.ofBody body, ⟨.start, .start⟩⟩ : Reference).lower

/-- An open section without its place. -/
structure SectionOutline where
  /-- The kind of the section. -/
  kind : SectionKind
  /-- The text so far. -/
  body : TextBuffer
  deriving DecidableEq

/-- An open block without its place. -/
structure BlockOutline where
  /-- The statement that opened the block. -/
  opening : Opening
  /-- The text so far. -/
  body : TextBuffer
  /-- The text of the alternative so far, once there is one. -/
  otherwise : Option TextBuffer
  deriving DecidableEq

namespace BlockOutline

/-- The block with the text that is being collected changed. -/
def edit (b : BlockOutline) (change : TextBuffer → TextBuffer) : BlockOutline :=
  match b.otherwise with
  | some buffer => { b with otherwise := some (change buffer) }
  | none => { b with body := change b.body }

/-- The finished block. -/
def block (b : BlockOutline) : Block :=
  match b.opening with
  | .conditional condition =>
    .conditional condition b.body.finish ((b.otherwise.map TextBuffer.finish).getD [])
  | .forEach item collection => .forEach item collection b.body.finish
  | .onError => .onError b.body.finish

end BlockOutline

/-- A document in the making without places and reports. -/
structure Outline where
  /-- The finished sections with their texts. -/
  sections : List (SectionKind × Text)
  /-- The references so far. -/
  references : List FormReference
  /-- The finished blocks. -/
  blocks : List Block
  /-- The calls so far. -/
  apiCalls : List ApiCall
  /-- The open section, if any. -/
  openSection : Option SectionOutline
  /-- The open block, if any. -/
  openBlock : Option BlockOutline
  /-- Whether the current line held nothing but white space and references so far. -/
  lineBlank : Bool
  /-- Whether a reference was spliced out of the current line. -/
  lineHasReference : Bool

namespace Outline

/-- The outline at the start of a script. -/
def empty : Outline :=
  ⟨[], [], [], [], none, none, true, false⟩

/-- Changes the text being collected: that of the open block, or else of the open section. -/
def edit (o : Outline) (change : TextBuffer → TextBuffer) : Outline :=
  match o.openBlock, o.openSection with
  | some block, _ => { o with openBlock := some (block.edit change) }
  | none, some s => { o with openSection := some { s with body := change s.body } }
  | none, none => o

/-- Text that is collected is no reference. -/
theorem references_edit (o : Outline) (change : TextBuffer → TextBuffer) :
    (o.edit change).references = o.references := by
  unfold edit
  split <;> rfl

/-- Sets what is known of the current line. -/
def setLine (o : Outline) (blank hasReference : Bool) : Outline :=
  { o with lineBlank := blank, lineHasReference := hasReference }

/-- Finishes the open section, if any. -/
def finishSection (o : Outline) : Outline :=
  match o.openSection with
  | some s => { o with sections := o.sections ++ [(s.kind, s.body.finish)], openSection := none }
  | none => o

/-- Finishes the open block, if any. -/
def finishBlock (o : Outline) : Outline :=
  match o.openBlock with
  | some b => { o with blocks := o.blocks ++ [b.block], openBlock := none }
  | none => o

/-- The outline at the end of a script: all that is open ends. -/
def close (o : Outline) : Outline :=
  o.finishSection.finishBlock

/-- A header ends all that is open and opens a section. -/
def header (o : Outline) (kind : SectionKind) : Outline :=
  { o.close.setLine false false with openSection := some ⟨kind, .empty⟩ }

/-- A fragment of text. A blank line ends a section; a line of references alone leaves no trace. -/
def text (o : Outline) (t : Text) : Outline :=
  if o.lineBlank ∧ Text.isBlank t ∧ Text.endsLine t then
    if o.lineHasReference then { o.edit .dropLine with lineHasReference := false }
    else
      match o.openBlock with
      | some block => { o with openBlock := some (block.edit (·.push t)) }
      | none => o.finishSection
  else
    (o.edit (·.push t)).setLine (Text.endsLine t || (o.lineBlank && Text.isBlank t))
      (o.lineHasReference && !Text.endsLine t)

/-- Opens a block, unless one is open. -/
def openNew (o : Outline) (opening : Opening) (rest : Text) : Outline :=
  match o.openBlock with
  | some _ => o
  | none => { o with openBlock := some ⟨opening, .ofLine rest, none⟩ }

/-- A conditional statement with its arguments. -/
def conditional (o : Outline) (arguments : Text) : Outline :=
  match Text.splitWord? "THEN".toList arguments with
  | some (c :: condition, rest) => o.openNew (.conditional (.ofText (c :: condition))) rest
  | _ => o.openNew (.conditional (.ofText arguments)) []

/-- A repetition statement with its arguments. -/
def forEach (o : Outline) (arguments : Text) : Outline :=
  match Draft.repetition? arguments with
  | some (item, collection, body) => o.openNew (.forEach item collection) body
  | none =>
    let (item, collection) := (Text.splitWord? "IN".toList arguments).getD (arguments, [])
    o.openNew (.forEach item collection) []

/-- The alternative of a condition. -/
def otherwise (o : Outline) (arguments : Text) : Outline :=
  match o.openBlock with
  | some ⟨.conditional condition, body, none⟩ =>
    { o with openBlock := some ⟨.conditional condition, body, some (.ofLine arguments)⟩ }
  | _ => o

/-- A call with its arguments. -/
def callApi (o : Outline) (arguments : Text) : Outline :=
  match ApiCall.ofText arguments with
  | .ok call => { o with apiCalls := o.apiCalls ++ [call] }
  | .error _ => o

/-- A statement with its arguments. -/
def perform (o : Outline) (word : Draft.StatementWord) (arguments : Text) : Outline :=
  match word with
  | .conditional => o.conditional arguments
  | .forEach => o.forEach arguments
  | .onError => o.openNew .onError arguments
  | .otherwise => o.otherwise arguments
  | .finish => o.finishBlock
  | .callApi => o.callApi arguments

/-- A statement and the rest of its line. It ends the open section. -/
def statement (o : Outline) (keyword : Text) (rest : Option Text) : Outline :=
  let o := o.finishSection.setLine true false
  match Draft.statementWords.lookup (Text.words keyword) with
  | some word => o.perform word ((rest.map Text.trim).getD [])
  | none => o

/-- A reference, and whether text recovered as its body runs to the end of a line. -/
def reference (o : Outline) (found : FormReference) (endsLine : Bool) : Outline :=
  let marked := { o with lineHasReference := true }
  let settled :=
    if endsLine then (if o.lineBlank then marked.edit .dropLine else marked).setLine true false
    else marked
  { settled with references := o.references ++ [found] }

/-- The form of an outline at the end of a script. -/
def form (o : Outline) : Form :=
  let sectionText (kind : SectionKind) : Text :=
    ((o.sections.find? (·.1 == kind)).map (·.2)).getD []
  { type := Form.scriptType
    version := Form.currentVersion
    task := sectionText .task
    action := sectionText .action
    goal := sectionText .goal
    references := o.references
    blocks := o.blocks
    apiCalls := o.apiCalls }

end Outline

namespace Item

/-- The body that follows a name and a target. -/
def Tail.body : Tail → Text
  | .none => []
  | .braced _ inner _ => Draft.textOf inner
  | .unterminated _ recovered => Draft.textOf recovered

/-- Whether text was recovered through the end of a line. -/
def Tail.endsLine : Tail → Bool
  | .unterminated _ recovered => recovered.getLast?.any Token.endsLine
  | _ => false

/-- The reference that a name, a target and what follows them give. -/
def found (name target : Option Token) (tail : Tail) : FormReference :=
  let named := (name.map (·.text)).getD []
  .ofParts (if target.isSome then Text.trimEndChar ':' named else named)
    (target.map fun t => Text.trimChar '"' t.text) (Text.trim tail.body)

end Item

namespace Outline

/-- The outline after an item that has a place in a script. -/
def apply (o : Outline) : Item → Outline
  | .header _ kind => o.header kind
  | .statement keyword rest => o.statement keyword.text (rest.map (·.text))
  | .text t => o.text t.text
  | .reference _ name target tail => o.reference (Item.found name target tail) tail.endsLine
  | .stray _ _ => o

/-- The outline after items in a row. -/
def applyAll (o : Outline) (items : List Item) : Outline :=
  items.foldl apply o

@[simp] theorem applyAll_nil (o : Outline) : o.applyAll [] = o := rfl

@[simp] theorem applyAll_cons (o : Outline) (item : Item) (items : List Item) :
    o.applyAll (item :: items) = (o.apply item).applyAll items := rfl

/-- Items in a row are applied one part after the other. -/
theorem applyAll_append (o : Outline) (items more : List Item) :
    o.applyAll (items ++ more) = (o.applyAll items).applyAll more :=
  List.foldl_append

end Outline

namespace Draft

/-- The outline of a draft. -/
def outline (d : Draft) : Outline where
  sections := d.document.sections.map fun s => (s.kind, s.body)
  references := d.document.references.map Reference.lower
  blocks := d.document.blocks.map (·.block)
  apiCalls := d.document.apiCalls.map (·.call)
  openSection := d.openSection.map fun s => ⟨s.kind, s.body⟩
  openBlock := d.openBlock.map fun b => ⟨b.opening, b.body, b.otherwise⟩
  lineBlank := d.lineBlank
  lineHasReference := d.lineHasReference

variable (d : Draft)

/-- A report is no part of the outline. -/
theorem outline_report (problem : Document.Problem) (span : Span) :
    (d.report problem span).outline = d.outline :=
  rfl

/-- Text is collected in the outline as in the draft. -/
theorem outline_edit (change : TextBuffer → TextBuffer) :
    (d.edit change).outline = d.outline.edit change := by
  unfold edit Outline.edit
  cases hb : d.openBlock with
  | some b =>
    simp only [outline, hb, Option.map_some]
    cases ho : b.otherwise <;> simp [OpenBlock.edit, BlockOutline.edit, ho]
  | none =>
    cases hs : d.openSection with
    | some s => simp [outline, hb, hs]
    | none => simp [outline, hb, hs]

/-- What is known of the line is part of the outline. -/
theorem outline_setLine (blank hasReference : Bool) :
    (d.setLine blank hasReference).outline = d.outline.setLine blank hasReference :=
  rfl

/-- The span of a section is no part of the outline. -/
theorem outline_extendSection (span : Span) : (d.extendSection span).outline = d.outline := by
  unfold extendSection outline
  cases d.openSection <;> rfl

/-- A section ends in the outline as in the draft. -/
theorem outline_finishSection : d.finishSection.outline = d.outline.finishSection := by
  unfold finishSection Outline.finishSection
  cases hs : d.openSection <;> simp [outline, hs]

/-- The open block of the outline is that of the draft without its place. -/
theorem outline_openBlock : d.outline.openBlock = d.openBlock.map
    fun b => ⟨b.opening, b.body, b.otherwise⟩ :=
  rfl

/-- A finished block does not depend on its place. -/
theorem block_outline (b : OpenBlock) :
    (⟨b.opening, b.body, b.otherwise⟩ : BlockOutline).block = b.block := by
  unfold BlockOutline.block OpenBlock.block
  cases b.opening <;> rfl

/-- Closing an unfinished block is ending it, but for the report. -/
theorem outline_closeUnfinished : d.closeUnfinished.outline = d.outline.finishBlock := by
  unfold closeUnfinished Outline.finishBlock
  cases hb : d.openBlock with
  | none => simp [outline_openBlock, hb]
  | some b => simp [outline, addBlock, report, hb, block_outline]

/-- What is open at the end of a script ends in the outline as in the draft. -/
theorem outline_close : d.close.outline = d.outline.close := by
  rw [close, outline_closeUnfinished, outline_finishSection, Outline.close]

/-- A fragment of text changes the outline by its text alone. -/
theorem outline_text (t : Token) : (d.text t).outline = d.outline.text t.text := by
  have hpush : ((if t.isBlank then d else d.extendSection t.span).edit (·.push t.text)).outline =
      d.outline.edit (·.push t.text) := by
    rw [outline_edit]
    split
    · rfl
    · rw [outline_extendSection]
  unfold text Outline.text
  by_cases hblank : d.lineBlank = true ∧ t.isBlank = true ∧ t.endsLine = true
  · have hblank' : d.outline.lineBlank = true ∧ Text.isBlank t.text = true ∧
        Text.endsLine t.text = true := hblank
    rw [if_pos hblank, if_pos hblank']
    by_cases hreference : d.lineHasReference = true
    · have hreference' : d.outline.lineHasReference = true := hreference
      rw [if_pos hreference, if_pos hreference', ← outline_edit]
      rfl
    · have hreference' : ¬d.outline.lineHasReference = true := hreference
      rw [if_neg hreference, if_neg hreference']
      cases hb : d.openBlock with
      | none =>
        simp only [outline_openBlock, hb, Option.map_none]
        exact outline_finishSection d
      | some b =>
        simp only [outline, hb, Option.map_some]
        cases ho : b.otherwise <;> simp [OpenBlock.edit, BlockOutline.edit, ho]
  · have hblank' : ¬(d.outline.lineBlank = true ∧ Text.isBlank t.text = true ∧
        Text.endsLine t.text = true) := hblank
    rw [if_neg hblank, if_neg hblank', ← hpush]
    split <;> rfl

/-- A block is opened in the outline as in the draft. -/
theorem outline_openNew (opening : Opening) (span : Span) (rest : Text) :
    (d.openNew opening span rest).outline = d.outline.openNew opening rest := by
  unfold openNew Outline.openNew
  cases hb : d.openBlock with
  | none => simp [outline, hb]
  | some b =>
    simp only [outline_openBlock, hb, Option.map_some]
    rfl

/-- IF changes the outline by its arguments alone. -/
theorem outline_conditional (span : Span) (arguments : Text) :
    (d.conditional span arguments).outline = d.outline.conditional arguments := by
  unfold conditional Outline.conditional
  cases Text.splitWord? "THEN".toList arguments with
  | none => exact outline_openNew (d.report _ _) ..
  | some parts =>
    obtain ⟨condition, rest⟩ := parts
    cases condition with
    | nil => exact outline_openNew (d.report _ _) ..
    | cons c condition => exact outline_openNew ..

/-- FOR EACH changes the outline by its arguments alone. -/
theorem outline_forEach (span : Span) (arguments : Text) :
    (d.forEach span arguments).outline = d.outline.forEach arguments := by
  unfold forEach Outline.forEach
  cases repetition? arguments with
  | none => exact outline_openNew (d.report _ _) ..
  | some parts => exact outline_openNew ..

/-- ELSE changes the outline by its arguments alone. -/
theorem outline_otherwise (span : Span) (arguments : Text) :
    (d.otherwise span arguments).outline = d.outline.otherwise arguments := by
  unfold otherwise Outline.otherwise
  rw [outline_openBlock]
  cases hb : d.openBlock with
  | none => rfl
  | some b =>
    obtain ⟨opening, body, other, span⟩ := b
    cases opening <;> cases other <;> simp [outline, report, hb]

/-- END ends the block of the outline. -/
theorem outline_finish (keyword span : Span) : (d.finish keyword span).outline = d.outline.finishBlock := by
  unfold finish Outline.finishBlock
  cases hb : d.openBlock with
  | none =>
    simp only [outline_openBlock, hb, Option.map_none]
    rfl
  | some b => simp [outline, addBlock, hb, block_outline]

/-- A call changes the outline by its arguments alone. -/
theorem outline_callApi (span : Span) (arguments : Text) :
    (d.callApi span arguments).outline = d.outline.callApi arguments := by
  unfold callApi Outline.callApi
  cases ApiCall.ofText arguments with
  | ok call => simp [outline]
  | error problem => rfl

/-- A known statement changes the outline by the texts of its keyword and of its line. -/
theorem outline_statement {keyword : Token} {rest : Option Token}
    (hknown : (Draft.statementWords.lookup (Text.words keyword.text)).isSome = true) :
    (d.statement keyword rest).outline =
      d.outline.statement keyword.text (rest.map (·.text)) := by
  have hready : (d.finishSection.setLine true false).outline =
      d.outline.finishSection.setLine true false := by
    rw [outline_setLine, outline_finishSection]
  have harguments : (rest.map fun line => Text.trim line.text).getD [] =
      ((rest.map (·.text)).map Text.trim).getD [] := by
    cases rest <;> rfl
  obtain ⟨word, hword⟩ := Option.isSome_iff_exists.mp hknown
  unfold statement Outline.statement
  simp only [harguments, ← hready, hword]
  cases word with
  | conditional => exact outline_conditional ..
  | forEach => exact outline_forEach ..
  | onError => exact outline_openNew ..
  | otherwise => exact outline_otherwise ..
  | finish => exact outline_finish ..
  | callApi => exact outline_callApi ..

/-- The body of a reference does not depend on the draft, nor on the kind or the place. -/
theorem tail_body (kind : Text) (span : Span) (tail : Item.Tail) :
    (d.tail kind span tail).2.1 = tail.body := by
  cases tail <;> rfl

/-- What follows a name changes the text being collected only if a line was recovered. -/
theorem outline_tail (kind : Text) (span : Span) (tail : Item.Tail) :
    (d.tail kind span tail).1.outline =
      if tail.endsLine then
        (if d.lineBlank then d.outline.edit .dropLine else d.outline).setLine true false
      else d.outline := by
  cases tail with
  | none => rfl
  | braced opening inner closing =>
    simp only [Draft.tail, Item.Tail.endsLine]
    split <;> rfl
  | unterminated mark recovered =>
    simp only [Draft.tail]
    generalize (if mark.text = ['"'] then Document.Problem.unterminatedTarget kind
      else .unterminatedBody kind) = problem
    by_cases hends : recovered.getLast?.any Token.endsLine = true
    · have hends' : (Item.Tail.unterminated mark recovered).endsLine = true := hends
      rw [if_pos hends, if_pos hends', outline_setLine]
      split
      · rw [outline_edit, outline_report]
      · rw [outline_report]
    · have hends' : ¬(Item.Tail.unterminated mark recovered).endsLine = true := hends
      rw [if_neg hends, if_neg hends', outline_report]

/-- A reference that is added is added to the outline without its place. -/
theorem outline_addReference (r : Reference) :
    { d with document := { d.document with
        references := d.document.references ++ [r] } }.outline =
      { d.outline with references := d.outline.references ++ [r.lower] } := by
  simp [outline]

/-- A reference changes the outline by the texts of its tokens. -/
theorem outline_reference (start : Token) (name target : Option Token) (tail : Item.Tail) :
    (d.reference start name target tail).outline =
      d.outline.reference (Item.found name target tail) tail.endsLine := by
  have hfound (kind : Text) (t : Option Text) (body : Text) (span : Span) :
      Reference.lower ⟨kind, t, body, Params.ofBody body, span⟩ = .ofParts kind t body :=
    rfl
  have hmarked : { d with lineHasReference := true }.outline =
      { d.outline with lineHasReference := true } := rfl
  unfold reference Outline.reference Item.found
  simp only [outline_addReference, outline_tail, tail_body, hmarked, hfound]
  by_cases hends : tail.endsLine = true
  · have hblank : d.outline.lineBlank = d.lineBlank := rfl
    rw [if_pos hends, if_pos hends, hblank]
    have hreferences (o : Outline) : (o.setLine true false).references = o.references := rfl
    rw [hreferences]
    by_cases hline : d.lineBlank = true
    · rw [if_pos hline, Outline.references_edit]
    · rw [if_neg hline]
  · rw [if_neg hends, if_neg hends]

/-- An item changes the outline of a draft by its texts alone. -/
theorem outline_apply {item : Item} (hknown : item.IsKnown) :
    (d.apply item).outline = d.outline.apply item := by
  cases item with
  | header t kind =>
    have hclosed : d.closeAll.outline = d.outline.close.setLine false false := by
      rw [closeAll, outline_setLine, outline_closeUnfinished, outline_finishSection, Outline.close]
    unfold apply Outline.apply Outline.header
    rw [← hclosed]
    rfl
  | statement keyword rest => exact outline_statement d hknown
  | text t => exact outline_text d t
  | reference start name target tail => exact outline_reference d start name target tail
  | stray => exact absurd hknown id

/-- Items in a row change the outline as each does, if all of them have a place in a script. -/
theorem outline_applyAll {items : List Item} (hknown : ∀ item ∈ items, item.IsKnown) :
    (d.applyAll items).outline = d.outline.applyAll items := by
  induction items generalizing d with
  | nil => rfl
  | cons item items ih =>
    have hrest : ∀ i ∈ items, i.IsKnown := fun i hi => hknown i (List.mem_cons_of_mem _ hi)
    rw [Outline.applyAll_cons, ← outline_apply d (hknown item List.mem_cons_self)]
    exact ih _ hrest

/-- The form of a document is that of the outline of its draft. -/
theorem lower_document : d.document.lower = d.outline.form := by
  have hsection (kind : SectionKind) : d.document.sectionText kind =
      ((d.outline.sections.find? (·.1 == kind)).map (·.2)).getD [] := by
    unfold Document.sectionText Document.section? Document.sectionsOf outline
    rw [List.head?_filter, List.find?_map, Option.map_map]
    rfl
  unfold Document.lower Outline.form
  simp only [hsection]
  rfl

end Draft

/-- The outline of a script is the one that its items lead to. -/
theorem outline_ofText (source : Text) :
    (Draft.empty.applyAll (Item.ofTokens (Token.ofText source))).close.outline =
      (Outline.empty.applyAll (Item.ofTokens (Token.ofText source))).close := by
  have hknown := Item.isKnown_of_grammar (Token.grammar_ofText source)
  rw [Draft.outline_close, Draft.outline_applyAll Draft.empty hknown]
  rfl

/-- The form of a script is that of the outline that its items lead to. -/
theorem lower_ofText (source : Text) :
    (Parsed.ofText source).document.lower =
      (Outline.empty.applyAll (Item.ofTokens (Token.ofText source))).close.form := by
  rw [← outline_ofText]
  exact Draft.lower_document _

end PromptScript
