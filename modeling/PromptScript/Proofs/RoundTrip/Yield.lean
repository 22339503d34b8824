import PromptScript.Proofs.RoundTrip.Heading

/-!
# Forms that are read back

If a form is read back from its written form, then so is each part of it, since a finished section
and a finished block stay as they are. The lines of the part then give up all their ink, and lines
that do so read as text.
-/

namespace PromptScript

open Lexer (ahead IsFree)

namespace Outline

variable {o : Outline}

/-- Items extend the sections and the blocks. -/
theorem prefix_applyAll (o : Outline) (items : List Item) :
    o.sections <+: (o.applyAll items).sections ∧ o.blocks <+: (o.applyAll items).blocks := by
  induction items generalizing o with
  | nil => exact ⟨List.prefix_rfl, List.prefix_rfl⟩
  | cons item items ih =>
    obtain ⟨hsections, hblocks⟩ := prefix_apply o item
    exact ⟨hsections.trans (ih _).1, hblocks.trans (ih _).2⟩

/-- What is finished stays to the end of a script. -/
theorem prefix_read (o : Outline) (l : Lexer) :
    o.sections <+: (o.read l).close.sections ∧ o.blocks <+: (o.read l).close.blocks := by
  obtain ⟨hsections, hblocks⟩ := prefix_applyAll o (Item.ofTokens l.tokens)
  have hclose := Extends.close (o.read l)
  exact ⟨hsections.trans hclose.sections, hblocks.trans hclose.blocks⟩

/-- The text of a form for a kind is that of the first finished section of the kind. -/
theorem textOf_form (o : Outline) (kind : SectionKind) :
    o.form.textOf kind = (o.sectionOf? kind).getD [] := by
  cases kind <;> rfl

/-- The keyword that ends a block finishes what is open. -/
theorem statement_end (o : Outline) (rest : Option Text) :
    o.statement "END".toList rest = (o.finishSection.setLine true false).finishBlock := by
  have hword : Draft.statementWords.lookup (Text.words "END".toList) = some .finish := by decide
  simp only [statement, hword, perform]

variable {i n : Nat} {opening : Opening}

/-- A reference does not raise the ink of a block. -/
theorem BlockBound.reference (h : BlockBound i opening n o) (found : FormReference) (endsLine : Bool) :
    BlockBound i opening n (o.reference found endsLine) := by
  have hmarked : BlockBound i opening n { o with lineHasReference := true } := h.congr rfl rfl
  have hdropped : BlockBound i opening n (edit { o with lineHasReference := true } .dropLine) := by
    rcases hmarked with ⟨b, hb, hopening, hink⟩ | ⟨hi, b, hb, hopening, hink⟩
    · exact .of_isPrefix (Extends.edit _ _).blocks hb hopening hink
    · rw [edit_of_openBlock hb]
      refine Or.inr ⟨hi, _, rfl, ?_, Nat.le_trans b.inkLength_dropLine hink⟩
      rw [← hopening]
      unfold BlockOutline.edit
      split <;> rfl
  unfold Outline.reference
  dsimp only
  split
  · split
    · exact hdropped.congr rfl rfl
    · exact hmarked.congr rfl rfl
  · exact hmarked.congr rfl rfl

/-- The opening of a block stays the same. -/
theorem BlockBound.applyAll (h : BlockBound i opening n o) (items : List Item) :
    ∃ m, BlockBound i opening m (o.applyAll items) := by
  induction items generalizing o n with
  | nil => exact ⟨n, h⟩
  | cons item items ih =>
    have hmeter := isMeter_blockBound i opening
    cases item with
    | header t kind => exact ih (hmeter.header kind h)
    | statement keyword rest =>
      cases rest with
      | none => exact ih (hmeter.statement keyword.text [] h)
      | some t => exact ih (hmeter.statement keyword.text t.text h)
    | text t => exact ih (hmeter.text t.text h)
    | reference start name target tail => exact ih (h.reference _ _)
    | stray => exact ih h

end Outline

namespace Form

/-- Whether from an outline without references a text, and the written references of a form after
it, lead to the form. -/
structure Yields (f : Form) (o : Outline) (lineStart : Bool) (text : Text) : Prop where
  /-- No reference was read so far. -/
  references : o.references = []
  /-- The text is made of lines. -/
  lines : text = [] ∨ text.getLast? = some '\n'
  /-- Reading on leads to the form. -/
  read : ∃ (before : Option Char) (p : Position), IsFree before ∧
    (o.read (ahead .text lineStart before p (text ++ f.references.flatMap FormReference.render))).close.form = f

namespace Yields

variable {f : Form} {o m : Outline} {lineStart lm : Bool} {s t : Text}

/-- What is read on gives the references of the form. -/
theorem references_read {l : Lexer} (ho : o.references = []) (h : (o.read l).close.form = f) :
    l.references = f.references := by
  have hform : (o.read l).close.references = f.references := congrArg Form.references h
  rw [(Outline.Extends.close _).references, Lexer.references_read, ho, List.nil_append] at hform
  exact hform

/-- A passage leads on. -/
theorem passes (h : f.Yields o lineStart (s ++ t)) (hpasses : o.Passes lineStart s m lm)
    (hm : m.references = []) : f.Yields m lm t := by
  obtain ⟨before, p, hb, hread⟩ := h.read
  obtain ⟨free, q, hfree, hnext⟩ := hpasses before p (t ++ f.references.flatMap FormReference.render) hb
  refine ⟨hm, ?_, free, q, hfree, by rw [← hnext, ← List.append_assoc, hread]⟩
  by_cases hnil : t = []
  · exact Or.inl hnil
  · exact Or.inr (Text.getLast?_of_append (h.lines.resolve_left (by simp [hnil])) hnil)

/-- A section that is finished is one of the form. -/
theorem textOf_eq {kind : SectionKind} (h : f.Yields o lineStart t)
    (hs : o.sectionOf? kind = some s) : f.textOf kind = s := by
  obtain ⟨before, p, -, hread⟩ := h.read
  rw [← hread, Outline.textOf_form, Outline.sectionOf?_of_isPrefix (Outline.prefix_read o _).1 hs]
  rfl

/-- A block that is finished is one of the form. -/
theorem getElem?_blocks {i : Nat} {b : Block} (h : f.Yields o lineStart t)
    (hb : o.blocks[i]? = some b) : f.blocks[i]? = some b := by
  obtain ⟨before, p, -, hread⟩ := h.read
  have hblocks : _ = f.blocks := congrArg Form.blocks hread
  rw [← hblocks]
  exact Outline.getElem?_of_isPrefix (Outline.prefix_read o _).2 hb

/-- The opening of a block that is open is that of the block of the form. -/
theorem opening_eq {i n : Nat} {opening : Opening} {b : Block} (h : f.Yields o lineStart t)
    (hbound : Outline.BlockBound i opening n o) (hb : f.blocks[i]? = some b) : b.opening = opening := by
  obtain ⟨before, p, -, hread⟩ := h.read
  obtain ⟨k, hall⟩ := hbound.applyAll
    (Item.ofTokens (ahead .text lineStart before p (t ++ f.references.flatMap FormReference.render)).tokens)
  obtain ⟨c, hc, hopening, -⟩ := hall.finishSection.finish
  have hblocks : _ = f.blocks := congrArg Form.blocks hread
  rw [← hblocks] at hb
  obtain rfl : b = c := Option.some.inj (hb.symm.trans hc)
  exact hopening

/-- Lines of a text lead on, and what a meter collects from them is all of their ink only if they
read as text. -/
theorem unlines {P : Nat → Outline → Prop} {n : Nat} {ls : List Text}
    (h : f.Yields o lineStart (Text.unlines ls ++ t)) (hP : Outline.IsMeter P) (hn : P n o)
    (hrefs : ∀ r ∈ f.references, r.IsWellFormed) (hls : ∀ l ∈ ls, '\n' ∉ l) :
    ∃ m k, f.Yields m (lineStart || !ls.isEmpty) t ∧
      ((lineStart = true → o.IsFresh) → (lineStart || !ls.isEmpty) = true → m.IsFresh) ∧
      P (n + k) m ∧ k ≤ (Text.ink (Text.unlines ls)).length ∧
      (k = (Text.ink (Text.unlines ls)).length → Text.readsAsText lineStart ls = true) := by
  obtain ⟨before, p, hb, hread⟩ := h.read
  have hrest : t = [] ∨ t.getLast? = some '\n' := by
    by_cases hnil : t = []
    · exact Or.inl hnil
    · exact Or.inr (Text.getLast?_of_append (h.lines.resolve_left (by simp [hnil])) hnil)
  have hreferences := references_read h.references hread
  rw [List.append_assoc] at hread hreferences
  obtain ⟨m, k, free, q, hfree, hsame, hmore, hfresh, hk, hle, htext⟩ :=
    hP.lines hrefs hls hrest hb hreferences hn
  have hm := congrArg Outline.references hsame
  rw [Lexer.references_read, Lexer.references_read, h.references, hreferences, hmore] at hm
  rw [hsame] at hread
  exact ⟨m, k, ⟨List.append_cancel_right (hm.symm.trans rfl), hrest, free, q, hfree, hread⟩, hfresh,
    hk, hle, htext⟩

variable {sections : List (SectionKind × Text)} {blocks : List Block} {b : Block}

/-- The lines of a section that is read back read as text. -/
theorem readsAsText_section (hf : f.IsWellFormed) {kind : SectionKind}
    (hnone : sections.find? (·.1 == kind) = none)
    (h : f.Yields (.idle sections [] [] []) true (f.renderSection kind ++ t)) :
    Text.readsAsText false (Text.lines (f.textOf kind)) = true := by
  have htrim := hf.sections_trim kind
  have hsplit : f.renderSection kind ++ t = kind.keyword ++ [':'] ++
      (Text.unlines (Text.spaced (f.textOf kind)) ++ (['\n'] ++ t)) := by
    rw [Text.unlines_spaced htrim]
    simp [renderSection]
  rw [hsplit] at h
  have hopen : Outline.SectionBound kind 0 ((Outline.idle sections [] [] []).header kind) := by
    refine Or.inr ⟨?_, rfl, .empty, rfl, Nat.le_refl 0⟩
    exact congrArg (Option.map Prod.snd) hnone
  obtain ⟨m, k, hm, hfresh, hbound, hle, htext⟩ := (h.passes (Outline.passes_header kind) rfl).unlines
    (Outline.isMeter_sectionBound kind) hopen hf.references fun l hl => Text.not_mem_of_mem_spaced hl
  have hstart : (false || !(Text.spaced (f.textOf kind)).isEmpty) = true := by
    rw [List.isEmpty_eq_false_iff.mpr (Text.spaced_ne_nil _)]
    rfl
  obtain ⟨s, hs, hink⟩ := hbound.text_break (hfresh (fun heq => by cases heq) hstart)
  have hended := hm.passes (Outline.passes_break m _)
    ((Outline.Extends.text m _).references.trans hm.references)
  have hspaced : Text.ink (Text.unlines (Text.spaced (f.textOf kind))) = Text.ink (f.textOf kind) := by
    have hbreak : Text.ink ['\n'] = [] := by decide
    rw [Text.unlines_spaced htrim, Text.ink_append, hbreak, List.append_nil, Text.ink_blank]
  rw [← Text.readsAsText_spaced htrim]
  refine htext (Nat.le_antisymm hle ?_)
  rw [hspaced, hended.textOf_eq hs]
  rwa [Nat.zero_add] at hink

/-- A section that is read back leads on. -/
theorem pass_section (hf : f.IsWellFormed) {kind : SectionKind}
    (hnone : sections.find? (·.1 == kind) = none)
    (h : f.Yields (.idle sections [] [] []) true (f.renderSection kind ++ t)) :
    Text.readsAsText false (Text.lines (f.textOf kind)) = true ∧
      f.Yields (.idle (sections ++ [(kind, f.textOf kind)]) [] [] []) true t := by
  have hlines := h.readsAsText_section hf hnone
  exact ⟨hlines, h.passes (Outline.passes_section kind (hf.sections_trim kind)
    (hf.sections_lines kind) hlines) rfl⟩

/-- The heading of a block that is read back has its arguments. -/
theorem hasLegibleHeading (h : f.Yields (.idle sections [] blocks []) true (b.heading ++ ['\n'] ++ t))
    (hb : b.IsWellFormed) (hat : f.blocks[blocks.length]? = some b) : b.hasLegibleHeading = true := by
  obtain ⟨opening, rest, hpasses, hlegible⟩ := Outline.passes_heading hb
  have hopen : Outline.BlockBound blocks.length opening _
      (.inBlock sections [] blocks [] ⟨opening, .ofLine rest, none⟩) :=
    Or.inr ⟨rfl, _, rfl, rfl, Nat.le_refl _⟩
  exact hlegible ((h.passes hpasses rfl).opening_eq hopen hat).symm

/-- The alternative of a block leads on. -/
theorem alternative {i n : Nat} {opening : Opening}
    (h : f.Yields o true (b.alternative ++ t)) (hb : b.IsWellFormed)
    (hrefs : ∀ r ∈ f.references, r.IsWellFormed) (hn : Outline.BlockBound i opening n o) :
    ∃ m k, f.Yields m true t ∧ Outline.BlockBound i opening (n + k) m ∧
      k ≤ (Text.ink b.otherwise).length ∧ (k = (Text.ink b.otherwise).length →
        Text.readsAsText true (Text.lines b.otherwise) = true) := by
  by_cases hnil : b.otherwise = []
  · rw [Block.alternative, hnil] at h
    rw [hnil]
    exact ⟨o, 0, h, hn, Nat.le_refl 0, fun _ => rfl⟩
  · have hsplit : b.alternative ++ t = "ELSE".toList ++ [] ++ ['\n'] ++
        (Text.unlines (Text.lines b.otherwise) ++ t) := by
      rw [Block.alternative, List.isEmpty_eq_false_iff.mpr hnil]
      rfl
    have hmeter := Outline.isMeter_blockBound i opening
    have hstatement : Outline.BlockBound i opening (n + 0) (o.statement "ELSE".toList (some ['\n'])) :=
      hmeter.statement _ _ hn
    rw [hsplit] at h
    have hline : '\n' ∉ ([] : Text) := by simp
    have hpasses : o.Passes true _ _ true := Outline.passes_statement hline
      fun rest => Lexer.statement?_one "ELSE".toList .elseWord (by decide) (by decide) (by decide) rest
    obtain ⟨m, k, hm, -, hbound, hle, htext⟩ := (h.passes hpasses
      ((Outline.Extends.statement o _ _).references.trans h.references)).unlines hmeter hstatement
        hrefs fun l hl => Text.not_mem_of_mem_lines hl
    rw [Text.length_ink_unlines_lines hb.otherwise_trim] at hle htext
    exact ⟨m, k, hm, hbound, hle, htext⟩

/-- A block that is read back is legible. -/
theorem isLegible_block (hb : b.IsWellFormed) (hrefs : ∀ r ∈ f.references, r.IsWellFormed)
    (hat : f.blocks[blocks.length]? = some b)
    (h : f.Yields (.idle sections [] blocks []) true (b.render ++ t)) : b.isLegible = true := by
  rw [Block.render_eq hb, List.append_assoc (b.heading ++ ['\n']), List.append_assoc (Text.unlines _),
    List.append_assoc b.alternative] at h
  have hheading := h.hasLegibleHeading hb hat
  have hopen : Outline.BlockBound blocks.length b.opening 0
      (.inBlock sections [] blocks [] ⟨b.opening, .empty, none⟩) :=
    Or.inr ⟨rfl, _, rfl, rfl, Nat.le_refl 0⟩
  have hmeter := Outline.isMeter_blockBound blocks.length b.opening
  obtain ⟨m, k, hm, -, hbound, hle, hlines⟩ := (h.passes
    (Outline.passes_legible_heading hb hheading) rfl).unlines hmeter hopen hrefs
      fun l hl => Text.not_mem_of_mem_lines hl
  obtain ⟨m', k', hm', hbound', hle', hothers⟩ := hm.alternative hb hrefs hbound
  have hline : '\n' ∉ ([] : Text) := by simp
  have hend : m'.Passes true ("END".toList ++ [] ++ ['\n']) _ true := Outline.passes_statement hline
    fun rest => Lexer.statement?_one "END".toList .endWord (by decide) (by decide) (by decide) rest
  have hlast : f.Yields m' true ("END".toList ++ [] ++ ['\n'] ++ '\n' :: t) := hm'
  have hended := hlast.passes hend ((Outline.Extends.statement m' _ _).references.trans hm'.references)
  have hready : Outline.BlockBound blocks.length b.opening _ (m'.finishSection.setLine true false) :=
    hbound'.finishSection.congr rfl rfl
  rw [Outline.statement_end] at hended
  obtain ⟨c, hc, -, hink⟩ := hready.finish
  have hsame : f.blocks[blocks.length]? = some c := hended.getElem?_blocks hc
  obtain rfl : b = c := Option.some.inj (hat.symm.trans hsame)
  rw [Text.length_ink_unlines_lines hb.body_trim] at hle hlines
  rw [Block.inkLength, Nat.zero_add] at hink
  rw [Block.isLegible_eq, hheading, hlines (by omega), hothers (by omega)]
  rfl

/-- A block that is read back leads on. -/
theorem pass_block (hb : b.IsWellFormed) (hrefs : ∀ r ∈ f.references, r.IsWellFormed)
    (hat : f.blocks[blocks.length]? = some b)
    (h : f.Yields (.idle sections [] blocks []) true (b.render ++ t)) :
    b.isLegible = true ∧ f.Yields (.idle sections [] (blocks ++ [b]) []) true t := by
  have hlegible := h.isLegible_block hb hrefs hat
  exact ⟨hlegible, h.passes (Outline.passes_block hb hlegible) rfl⟩

/-- Blocks in a row that are read back are legible. -/
theorem isLegible_blocks (hf : f.IsWellFormed) {bs : List Block} (hall : f.blocks = blocks ++ bs)
    (h : f.Yields (.idle sections [] blocks []) true (bs.flatMap Block.render ++ t)) :
    bs.all Block.isLegible = true ∧ f.Yields (.idle sections [] f.blocks []) true t := by
  induction bs generalizing blocks with
  | nil =>
    rw [hall, List.append_nil]
    exact ⟨rfl, h⟩
  | cons b bs ih =>
    rw [List.flatMap_cons, List.append_assoc] at h
    have hb := hf.blocks b (by rw [hall]; simp)
    have hat : f.blocks[blocks.length]? = some b := by rw [hall]; simp
    obtain ⟨hlegible, hnext⟩ := h.pass_block hb hf.references hat
    obtain ⟨hrest, hmore⟩ := ih (by rw [hall]; simp) hnext
    exact ⟨by rw [List.all_cons, hlegible, hrest]; rfl, hmore⟩

end Yields

end Form

end PromptScript
