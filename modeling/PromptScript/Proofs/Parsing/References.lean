import PromptScript.Proofs.Parsing.Steps

/-!
# References of a script

The references that a script gives are those of its items in order. Only a phrase of a reference
gives one; what comes before a place and what is recovered after a brace make no difference to the
references that come next.
-/

namespace PromptScript

/-- The reference that an item gives, if it is one. -/
def Item.reference? : Item → Option FormReference
  | .reference _ name target tail => some (found name target tail)
  | _ => none

/-- The references of items in a row are that of the first one, if it is one, and those of the
others. -/
theorem Item.references_cons (item : Item) (items : List Item) :
    (item :: items).filterMap reference? = item.reference?.toList ++ items.filterMap reference? := by
  cases hitem : item.reference? with
  | none => rw [List.filterMap_cons_none hitem]; rfl
  | some r => rw [List.filterMap_cons_some hitem]; rfl

namespace Outline

/-- Whether an outline has the references of another, and its sections and blocks and maybe more. -/
structure Extends (o m : Outline) : Prop where
  /-- The references are the same. -/
  references : m.references = o.references
  /-- Finished sections stay. -/
  sections : o.sections <+: m.sections
  /-- Finished blocks stay. -/
  blocks : o.blocks <+: m.blocks

namespace Extends

/-- Every outline extends itself. -/
theorem refl (o : Outline) : Extends o o :=
  ⟨rfl, List.prefix_rfl, List.prefix_rfl⟩

/-- What extends an extension extends the outline. -/
theorem trans {o m result : Outline} (h : Extends o m) (hnext : Extends m result) :
    Extends o result :=
  ⟨hnext.references.trans h.references, h.sections.trans hnext.sections,
    h.blocks.trans hnext.blocks⟩

variable (o : Outline)

/-- Text that is collected takes nothing away. -/
theorem edit (change : TextBuffer → TextBuffer) : Extends o (o.edit change) := by
  unfold Outline.edit
  split <;> exact ⟨rfl, List.prefix_rfl, List.prefix_rfl⟩

/-- Ending a section takes nothing away. -/
theorem finishSection : Extends o o.finishSection := by
  unfold Outline.finishSection
  split
  · exact ⟨rfl, List.prefix_append .., List.prefix_rfl⟩
  · exact refl o

/-- Ending a block takes nothing away. -/
theorem finishBlock : Extends o o.finishBlock := by
  unfold Outline.finishBlock
  split
  · exact ⟨rfl, List.prefix_rfl, List.prefix_append ..⟩
  · exact refl o

/-- Closing what is open takes nothing away. -/
theorem close : Extends o o.close :=
  (finishSection o).trans (finishBlock _)

/-- What is known of the line takes nothing away. -/
theorem setLine (blank hasReference : Bool) : Extends o (o.setLine blank hasReference) :=
  ⟨rfl, List.prefix_rfl, List.prefix_rfl⟩

/-- A header takes nothing away. -/
theorem header (kind : SectionKind) : Extends o (o.header kind) :=
  ⟨(close o).references, (close o).sections, (close o).blocks⟩

/-- A fragment of text takes no reference, section or block away. -/
theorem text (t : Text) : Extends o (o.text t) := by
  unfold Outline.text
  split
  · split
    · exact ⟨(edit o _).references, (edit o _).sections, (edit o _).blocks⟩
    · split
      · exact ⟨rfl, List.prefix_rfl, List.prefix_rfl⟩
      · exact finishSection o
  · exact (edit o _).trans (setLine _ _ _)

/-- Opening a block takes nothing away. -/
theorem openNew (opening : Opening) (rest : Text) : Extends o (o.openNew opening rest) := by
  unfold Outline.openNew
  split
  · exact refl o
  · exact ⟨rfl, List.prefix_rfl, List.prefix_rfl⟩

/-- IF takes nothing away. -/
theorem conditional (arguments : Text) : Extends o (o.conditional arguments) := by
  unfold Outline.conditional
  split <;> exact openNew ..

/-- FOR EACH takes nothing away. -/
theorem forEach (arguments : Text) : Extends o (o.forEach arguments) := by
  unfold Outline.forEach
  split <;> exact openNew ..

/-- ELSE takes nothing away. -/
theorem otherwise (arguments : Text) : Extends o (o.otherwise arguments) := by
  unfold Outline.otherwise
  split
  · exact ⟨rfl, List.prefix_rfl, List.prefix_rfl⟩
  · exact refl o

/-- A call takes nothing away. -/
theorem callApi (arguments : Text) : Extends o (o.callApi arguments) := by
  unfold Outline.callApi
  split
  · exact ⟨rfl, List.prefix_rfl, List.prefix_rfl⟩
  · exact refl o

/-- The word of a statement takes nothing away, whichever it is. -/
theorem perform (word : Draft.StatementWord) (arguments : Text) :
    Extends o (o.perform word arguments) := by
  cases word with
  | conditional => exact conditional o arguments
  | forEach => exact forEach o arguments
  | onError => exact openNew ..
  | otherwise => exact otherwise o arguments
  | finish => exact finishBlock o
  | callApi => exact callApi o arguments

/-- A statement takes nothing away and gives no reference. -/
theorem statement (keyword : Text) (rest : Option Text) : Extends o (o.statement keyword rest) := by
  have hready : Extends o (o.finishSection.setLine true false) :=
    (finishSection o).trans (setLine _ _ _)
  unfold Outline.statement
  split
  · exact hready.trans (perform _ _ _)
  · exact hready

end Extends

variable (o : Outline)

/-- An item adds the reference that it gives, if it is one, and no other. -/
theorem references_apply (item : Item) :
    (o.apply item).references = o.references ++ item.reference?.toList := by
  cases item with
  | header t kind => simp [apply, Item.reference?, (Extends.header o kind).references]
  | statement keyword rest => simp [apply, Item.reference?, (Extends.statement o _ _).references]
  | text t => simp [apply, Item.reference?, (Extends.text o _).references]
  | reference => rfl
  | stray => simp [apply, Item.reference?]

/-- Items in a row add the references that they give in their order. -/
theorem references_applyAll (items : List Item) :
    (o.applyAll items).references = o.references ++ items.filterMap Item.reference? := by
  induction items generalizing o with
  | nil => simp
  | cons item items ih =>
    rw [applyAll_cons, ih, references_apply, List.append_assoc, Item.references_cons]

/-- Items that give references extend the sections and blocks all the same. -/
theorem prefix_apply (item : Item) :
    o.sections <+: (o.apply item).sections ∧ o.blocks <+: (o.apply item).blocks := by
  cases item with
  | header t kind => exact ⟨(Extends.header o kind).sections, (Extends.header o kind).blocks⟩
  | statement keyword rest =>
    exact ⟨(Extends.statement o _ _).sections, (Extends.statement o _ _).blocks⟩
  | text t => exact ⟨(Extends.text o _).sections, (Extends.text o _).blocks⟩
  | reference start name target tail =>
    have hmarked : Extends o { o with lineHasReference := true } :=
      ⟨rfl, List.prefix_rfl, List.prefix_rfl⟩
    have hedit := hmarked.trans (Extends.edit _ .dropLine)
    simp only [apply, reference]
    split
    · split
      · exact ⟨hedit.sections, hedit.blocks⟩
      · exact ⟨List.prefix_rfl, List.prefix_rfl⟩
    · exact ⟨List.prefix_rfl, List.prefix_rfl⟩
  | stray => exact ⟨List.prefix_rfl, List.prefix_rfl⟩

end Outline

namespace Lexer

/-- The references that the script gives from a place on. -/
def references (l : Lexer) : List FormReference :=
  (Item.ofTokens l.tokens).filterMap Item.reference?

/-- The references of a script come after those that were there before it. -/
theorem references_read (o : Outline) (l : Lexer) :
    (o.read l).references = o.references ++ l.references :=
  Outline.references_applyAll o _

variable {l : Lexer} {lineStart : Bool} {after : Text}

/-- A comment gives no reference. -/
theorem references_comment {t : Text} (h : Reads l [.comment t] lineStart after) :
    l.references = (l.past t lineStart after).references := by
  rw [references, tokens_of_reads h]
  simp [Stretch.tokens, Stretch.text, references]

/-- A fragment of text gives no reference. -/
theorem references_text {t : Text} (h : Reads l [.token .text t] lineStart after) :
    l.references = (l.past t lineStart after).references := by
  obtain ⟨x, -, hitems⟩ := items_text h
  rw [references, hitems]
  rfl

/-- A header gives no reference. -/
theorem references_header {t : Text} (h : Reads l [.token .sectionKeyword t] lineStart after)
    (hkind : (SectionKind.ofHeader? t).isSome = true) :
    l.references = (l.past t lineStart after).references := by
  obtain ⟨kind, hkind⟩ := Option.isSome_iff_exists.mp hkind
  obtain ⟨x, hitems⟩ := items_header h hkind
  rw [references, hitems]
  rfl

/-- A statement with its line gives no reference. -/
theorem references_statement {t line : Text}
    (h : Reads l (.token .statementKeyword t :: Stretch.ofText .text line) lineStart after)
    (hend : line = [] → after = []) :
    l.references = (l.past (t ++ line) lineStart after).references := by
  obtain ⟨x, y, -, -, hitems⟩ := items_statement h hend
  rw [references, hitems]
  rfl

/-- Text tokens that are left out make no difference to the references after them. -/
theorem references_dropWhile (tokens : List Token) :
    (Item.ofTokens (tokens.dropWhile Token.isText)).filterMap Item.reference? =
      (Item.ofTokens tokens).filterMap Item.reference? := by
  induction tokens with
  | nil => rfl
  | cons t tokens ih =>
    rw [List.dropWhile_cons]
    split
    · rename_i ht
      have hkind : t.kind = .text := by simpa [Token.isText] using ht
      rw [ih, Item.ofTokens_text hkind]
      rfl
    · rfl

/-- A phrase of a reference gives the first reference, and the text after it gives the others. -/
theorem references_reference {colon : Bool} {name rest : Text} {ss : List Stretch}
    {target body : Option Text} (hattached : Attachment colon rest ss target body after)
    (h : Reads l (.token .referenceStart ['@'] :: (Stretch.ofText .identifier name ++ ss)) false
      after) :
    ∃ tokens, tokens = (l.past ('@' :: name ++ Stretch.join ss) false after).tokens ∧
      l.references = Item.foundIn name target body tokens ::
        (l.past ('@' :: name ++ Stretch.join ss) false after).references := by
  refine ⟨_, rfl, ?_⟩
  have hmore := grammar_past l ('@' :: name ++ Stretch.join ss) false after
  obtain ⟨start, named, quoted, tail, hitems, hfound, -⟩ := hattached.ofTokens name l.place hmore
  have hjoin : Stretch.join (.token .referenceStart ['@'] ::
      (Stretch.ofText .identifier name ++ ss)) = '@' :: name ++ Stretch.join ss := by
    simp [Stretch.text]
  have hafter : (Item.ofTokens (Item.afterBody body
      (l.past ('@' :: name ++ Stretch.join ss) false after).tokens)).filterMap Item.reference? =
        (l.past ('@' :: name ++ Stretch.join ss) false after).references := by
    cases body with
    | some inner => rfl
    | none => exact references_dropWhile _
  have hfirst : (Item.reference start named quoted tail).reference? =
      some (Item.found named quoted tail) := rfl
  rw [references, tokens_of_reads h, hjoin, hitems, List.filterMap_cons_some hfirst, hafter, hfound]

end Lexer

end PromptScript
