import PromptScript.Proofs.Parsing.LineState
import PromptScript.Proofs.Parsing.Record
import PromptScript.Proofs.RoundTrip.Origin
import PromptScript.Proofs.Splicing.Collect

/-!
# The texts of sections

Text and references act on what is being collected and on nothing else, so an open section collects
the items of its region one by one until one of them ends it.
-/

namespace PromptScript

namespace BlockOutline

/-- A change that changes nothing leaves a block as it is. -/
theorem edit_id (b : BlockOutline) : b.edit (fun buffer => buffer) = b := by
  obtain ⟨opening, body, otherwise⟩ := b
  cases otherwise <;> rfl

/-- Changing the text that is being collected twice. -/
theorem edit_edit (b : BlockOutline) (first second : TextBuffer → TextBuffer) :
    (b.edit first).edit second = b.edit fun buffer => second (first buffer) := by
  obtain ⟨opening, body, otherwise⟩ := b
  cases otherwise <;> rfl

end BlockOutline

namespace Outline

variable (o : Outline)

/-- A change that changes nothing leaves an outline as it is. -/
theorem edit_id : o.edit (fun buffer => buffer) = o := by
  unfold edit
  split
  · rename_i b _ hb
    rw [BlockOutline.edit_id, ← hb]
  · rename_i s _ hs
    rw [← hs]
  · rfl

/-- Text that is collected does not touch what is known of the line. -/
theorem lineBlank_edit (change : TextBuffer → TextBuffer) :
    (o.edit change).lineBlank = o.lineBlank := by
  unfold edit
  split <;> rfl

/-- A text in the making, with what an outline knows of its line. -/
def collecting (buffer : TextBuffer) : Collecting :=
  ⟨buffer, o.lineBlank, o.lineHasReference⟩

/-- The outline in which what is being collected is one item further. -/
def collect (item : Item) : Outline :=
  (o.edit fun buffer => ((o.collecting buffer).step item).buffer).setLine
    ((o.collecting .empty).step item).lineBlank ((o.collecting .empty).step item).lineHasReference

variable {o}

/-- Text is collected, unless it is a blank line that ends a section. -/
theorem text_eq_collect {t : Token}
    (h : o.lineBlank = true → o.lineHasReference = false → t.isBlank = true → t.endsLine = true →
      o.openBlock = none → o.openSection = none) : o.text t.text = o.collect (.text t) := by
  have hblank : t.isBlank = Text.isBlank t.text := rfl
  have hends : t.endsLine = Text.endsLine t.text := rfl
  unfold text collect Collecting.step
  simp only [Collecting.isBareAfter, collecting, Item.loose, hblank, hends] at h ⊢
  by_cases hline : o.lineBlank = true ∧ Text.isBlank t.text = true ∧ Text.endsLine t.text = true
  · obtain ⟨hb, ht, he⟩ := hline
    rw [if_pos ⟨hb, ht, he⟩, hb, ht, he]
    cases hreference : o.lineHasReference with
    | true =>
      have hflag : (o.edit .dropLine).lineBlank = true := (o.lineBlank_edit _).trans hb
      simp [setLine, ← hflag]
    | false =>
      have hstay : o.setLine true false = o := by rw [setLine, ← hb, ← hreference]
      cases hopen : o.openBlock with
      | some b => simp [edit, hopen, setLine, hb, hreference]
      | none =>
        have hsection := h hb hreference ht he hopen
        have hfinish : o.finishSection = o := by rw [finishSection, hsection]
        have hedit (change : TextBuffer → TextBuffer) : o.edit change = o := by
          rw [edit, hopen, hsection]
        simp [hfinish, hedit, hstay]
  · have hbare : (o.lineBlank && o.lineHasReference && Text.isBlank t.text &&
        Text.endsLine t.text) = false := by
      cases hb : o.lineBlank <;> cases ht : Text.isBlank t.text <;>
        cases he : Text.endsLine t.text <;> simp_all
    rw [if_neg hline]
    simp [hbare]

/-- A reference leaves the text alone, or drops the line of references that it ends. -/
theorem reference_eq_collect (start : Token) (name target : Option Token) (tail : Item.Tail)
    (found : FormReference) : o.reference found tail.endsLine =
      { o.collect (.reference start name target tail) with
        references := o.references ++ [found] } := by
  unfold reference collect Collecting.step
  simp only [Collecting.isBareAfter, collecting, Item.loose, TextBuffer.push_nil]
  have hmarked (m : Outline) (blank : Bool) (change : TextBuffer → TextBuffer) :
      ({ m with lineBlank := blank, lineHasReference := true }.edit change).setLine true false =
        (m.edit change).setLine true false := by
    obtain ⟨_, _, _, _, openSection, openBlock, _, _⟩ := m
    cases openBlock <;> cases openSection <;> rfl
  cases tail.endsLine with
  | true =>
    cases hb : o.lineBlank with
    | true => simp [hmarked]
    | false => simp [edit_id, setLine]
  | false => simp [edit_id, setLine]

/-- An open section collects what does not end it. -/
theorem apply_of_openSection {s : SectionOutline} {item : Item} (hblock : o.openBlock = none)
    (hsection : o.openSection = some s) (hknown : item.IsKnown) (hstay : item.endsSection = false)
    (hline : ∀ t, item = .text t →
      (o.lineBlank = true ∧ o.lineHasReference = false ↔ t.place.column = 1)) :
    (o.apply item).sections = o.sections ∧
      (o.apply item).openSection = some ⟨s.kind, ((o.collecting s.body).step item).buffer⟩ ∧
      (o.apply item).collecting ((o.collecting s.body).step item).buffer =
        (o.collecting s.body).step item := by
  cases item with
  | header t kind => cases hstay
  | statement keyword rest => cases hstay
  | text t =>
    have hblank : o.lineBlank = true → o.lineHasReference = false → t.isBlank = true →
        t.endsLine = true → o.openBlock = none → o.openSection = none := by
      intro hb hreference ht he _
      have hcolumn := (hline t rfl).mp ⟨hb, hreference⟩
      simp [Item.endsSection, ht, he, hcolumn] at hstay
    rw [apply, text_eq_collect hblank, collect, edit_of_openSection hblock hsection]
    exact ⟨rfl, rfl, rfl⟩
  | reference start name target tail =>
    rw [apply, reference_eq_collect start name, collect, edit_of_openSection hblock hsection]
    exact ⟨rfl, rfl, rfl⟩
  | stray => exact absurd hknown id

/-- The end of a block gives no section. -/
theorem sections_finishBlock (o : Outline) : o.finishBlock.sections = o.sections := by
  unfold finishBlock
  split <;> rfl

/-- A conditional statement opens a block with its condition. -/
theorem conditional_eq_openNew (o : Outline) (arguments : Text) : o.conditional arguments =
    o.openNew (Item.conditionalOpening arguments).1 (Item.conditionalOpening arguments).2 := by
  unfold conditional Item.conditionalOpening
  cases Text.splitWord? "THEN".toList arguments with
  | none => rfl
  | some parts =>
    obtain ⟨condition, rest⟩ := parts
    cases condition <;> rfl

/-- A repetition opens a block with its item and its collection. -/
theorem forEach_eq_openNew (o : Outline) (arguments : Text) : o.forEach arguments =
    o.openNew (Item.forEachOpening arguments).1 (Item.forEachOpening arguments).2 := by
  unfold forEach Item.forEachOpening
  cases Draft.repetition? arguments <;> rfl

/-- A statement leaves sections alone once the open one is finished. -/
theorem sections_perform (o : Outline) (word : Draft.StatementWord) (arguments : Text) :
    (o.perform word arguments).sections = o.sections ∧
      (o.perform word arguments).openSection = o.openSection := by
  have hopen (opening : Opening) (t : Text) : (o.openNew opening t).sections = o.sections ∧
      (o.openNew opening t).openSection = o.openSection := by
    unfold openNew
    split <;> exact ⟨rfl, rfl⟩
  cases word with
  | conditional =>
    rw [perform, conditional_eq_openNew]
    exact hopen ..
  | forEach =>
    rw [perform, forEach_eq_openNew]
    exact hopen ..
  | onError => exact hopen ..
  | otherwise =>
    rw [perform, otherwise]
    split <;> exact ⟨rfl, rfl⟩
  | finish =>
    rw [perform, finishBlock]
    split <;> exact ⟨rfl, rfl⟩
  | callApi =>
    rw [perform, callApi]
    split <;> exact ⟨rfl, rfl⟩

/-- A statement finishes the open section. -/
theorem sections_statement (o : Outline) (keyword : Text) (rest : Option Text) :
    (o.statement keyword rest).sections = o.finishSection.sections ∧
      (o.statement keyword rest).openSection = none := by
  have hnone : (o.finishSection.setLine true false).openSection = none :=
    IsSound.openSection_finishSection o
  unfold statement
  split
  · rename_i word _
    obtain ⟨hsections, hopen⟩ := sections_perform (o.finishSection.setLine true false) word
      ((rest.map Text.trim).getD [])
    exact ⟨hsections, hopen.trans hnone⟩
  · exact ⟨rfl, hnone⟩

/-- Where no section is open, only a header opens one. -/
theorem apply_of_not_openSection {item : Item} (hsection : o.openSection = none)
    (hknown : item.IsKnown) (hheader : ∀ t kind, item ≠ .header t kind) :
    (o.apply item).sections = o.sections ∧ (o.apply item).openSection = none := by
  have hcollect : (o.collect item).sections = o.sections ∧ (o.collect item).openSection = none := by
    unfold collect edit
    split
    · exact ⟨rfl, hsection⟩
    · rename_i s _ hs
      rw [hsection] at hs
      cases hs
    · exact ⟨rfl, hsection⟩
  cases item with
  | header t kind => exact absurd rfl (hheader t kind)
  | statement keyword rest =>
    obtain ⟨hsections, hnone⟩ := sections_statement o keyword.text (rest.map (·.text))
    have hfinish : o.finishSection = o := by rw [finishSection, hsection]
    rw [hfinish] at hsections
    exact ⟨hsections, hnone⟩
  | text t =>
    rw [apply, text_eq_collect fun _ _ _ _ _ => hsection]
    exact hcollect
  | reference start name target tail =>
    rw [apply, reference_eq_collect start name]
    exact hcollect
  | stray => exact absurd hknown id

/-- What ends a section finishes it. -/
theorem apply_of_endsSection {item : Item} (hblock : o.openBlock = none)
    (hends : item.endsSection = true) (hheader : ∀ t kind, item ≠ .header t kind)
    (hline : ∀ t, item = .text t →
      (o.lineBlank = true ∧ o.lineHasReference = false ↔ t.place.column = 1)) :
    (o.apply item).sections = o.finishSection.sections ∧ (o.apply item).openSection = none := by
  cases item with
  | header t kind => exact absurd rfl (hheader t kind)
  | statement keyword rest => exact sections_statement o _ _
  | text t =>
    simp only [Item.endsSection, Bool.and_eq_true, beq_iff_eq] at hends
    obtain ⟨⟨hblank, hlast⟩, hcolumn⟩ := hends
    obtain ⟨hb, hreference⟩ := (hline t rfl).mpr hcolumn
    have htext : o.apply (.text t) = o.finishSection := by
      rw [apply, text, if_pos ⟨hb, hblank, hlast⟩, hreference]
      simp [hblock]
    rw [htext]
    exact ⟨rfl, IsSound.openSection_finishSection o⟩
  | reference => cases hends
  | stray => cases hends

/-- The open section, if any, with the text that it has once items are read. -/
def opened (o : Outline) (items : List Item) : List (SectionKind × Text) :=
  o.openSection.toList.map fun s =>
    (s.kind, ((o.collecting s.body).run (items.takeWhile (!·.endsSection))).buffer.finish)

/-- The end of a section gives the section that is open, if one is. -/
theorem sections_finishSection (o : Outline) :
    o.finishSection.sections = o.sections ++ o.opened [] := by
  unfold finishSection opened
  cases o.openSection with
  | none => simp
  | some s => rfl

/-- The open section gets nothing of an item that ends it. -/
theorem opened_of_endsSection {item : Item} (h : item.endsSection = true) (items : List Item) :
    o.opened (item :: items) = o.opened [] := by
  simp [opened, h]

/-- Reading an item other than a header moves the open section on, or leaves it finished. -/
theorem opened_apply {item : Item} (hsound : o.IsSound) (hknown : item.IsKnown)
    (hheader : ∀ t kind, item ≠ .header t kind)
    (hline : ∀ t, item = .text t →
      (o.lineBlank = true ∧ o.lineHasReference = false ↔ t.place.column = 1)) (items : List Item) :
    (o.apply item).sections ++ (o.apply item).opened items =
      o.sections ++ o.opened (item :: items) := by
  cases hs : o.openSection with
  | none =>
    obtain ⟨hsections, hnone⟩ := apply_of_not_openSection hs hknown hheader
    simp [opened, hsections, hnone, hs]
  | some s =>
    have hblock : o.openBlock = none := by
      cases hb : o.openBlock with
      | none => rfl
      | some b =>
        have hnone := (hsound.openBlock b hb).2
        rw [hs] at hnone
        cases hnone
    cases hends : item.endsSection with
    | true =>
      obtain ⟨hsections, hnone⟩ := apply_of_endsSection hblock hends hheader hline
      rw [hsections, sections_finishSection, opened_of_endsSection hends]
      simp [opened, hnone]
    | false =>
      obtain ⟨hsections, hopen, hcollecting⟩ := apply_of_openSection hblock hs hknown hends hline
      simp [opened, hsections, hopen, hs, hends, hcollecting]

/-- A header finishes the open section and opens one of its kind. -/
theorem opened_header (o : Outline) (kind : SectionKind) (items : List Item) :
    (o.header kind).sections ++ (o.header kind).opened items =
      o.sections ++ o.opened [] ++
        [(kind, Item.sectionBody (items.takeWhile (!·.endsSection)))] := by
  have hsections : (o.header kind).sections = o.finishSection.finishBlock.sections := rfl
  rw [hsections, sections_finishBlock, sections_finishSection]
  rfl

end Outline

/-- The sections of a script are those of its regions, with the texts collected from them. -/
theorem Draft.sections_close {d : Draft} {items : List Item} (h : d.IsReading items)
    (hsound : d.outline.IsSound) (hitems : ∀ item ∈ items, item.AllHold) :
    (d.outline.applyAll items).close.sections =
      d.outline.sections ++ d.outline.opened items ++
        (Item.sectionRegions items).map fun region => (region.1, Item.sectionBody region.2) := by
  induction items generalizing d with
  | nil =>
    rw [Outline.applyAll_nil, Outline.close, Outline.sections_finishBlock,
      Outline.sections_finishSection]
    simp [Item.sectionRegions]
  | cons item items ih =>
    obtain ⟨hwhole, hnext⟩ := h.apply
    have hknown := hwhole.isKnown
    obtain ⟨hitem, hrest⟩ := List.forall_mem_cons.mp hitems
    have hread := ih hnext (by rw [d.outline_apply hknown]; exact hsound.apply hitem) hrest
    rw [d.outline_apply hknown] at hread
    rw [Outline.applyAll_cons, hread]
    have hline : ∀ t, item = .text t →
        (d.outline.lineBlank = true ∧ d.outline.lineHasReference = false ↔ t.place.column = 1) := by
      rintro t rfl
      exact h.column_eq_one_iff
    cases item with
    | header t kind =>
      have hheader := Outline.opened_header d.outline kind items
      simp only [Outline.apply, Item.sectionRegions, List.map_cons] at hheader ⊢
      rw [hheader, Outline.opened_of_endsSection rfl]
      simp
    | stray => exact absurd hknown id
    | statement | text | reference =>
      rw [Outline.opened_apply hsound hknown (by simp) hline]
      rfl

end PromptScript
