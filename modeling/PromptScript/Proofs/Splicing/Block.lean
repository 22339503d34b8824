import PromptScript.Proofs.Splicing.Section

/-!
# The texts of blocks

An open block collects the loose text of its items up to its END or the next header. Statements
inside leave its text alone, except for the first ELSE of a condition, which begins the text of the
alternative.
-/

namespace PromptScript

/-- The opening of a block and the texts of its branches. -/
def Block.parts (b : Block) : Opening × List Text :=
  (b.opening, b.branches)

/-- The opening of a region and the texts that its branches collect. -/
def BlockRegion.parts (region : BlockRegion) : Opening × List Text :=
  (region.opening, region.branches.map Branch.text)

/-- The items before the first one of a kind are not of that kind. -/
theorem Item.mem_before {p : Item → Bool} {item : Item} {items : List Item}
    (h : item ∈ items.takeWhile (!p ·)) : item ∈ items ∧ p item = false :=
  ⟨(List.takeWhile_prefix _).subset h, by
    simpa using List.all_eq_true.mp List.all_takeWhile item h⟩

/-- What comes right after the items before the first one of a kind is of that kind. -/
theorem Item.head?_after {p : Item → Bool} {items : List Item} :
    ∀ item ∈ (items.dropWhile (!p ·)).head?, p item = true := by
  intro item h
  have hhead := List.head?_dropWhile_not (!p ·) items
  rw [h] at hhead
  simpa using hhead

/-- Whether a block waits for its alternative. -/
def BlockOutline.awaitsOtherwise (b : BlockOutline) : Bool :=
  match b.opening, b.otherwise with
  | .conditional _, none => true
  | _, _ => false

/-- Text that is added does not decide whether an alternative may begin. -/
theorem BlockOutline.awaitsOtherwise_edit (b : BlockOutline) (change : TextBuffer → TextBuffer) :
    (b.edit change).awaitsOtherwise = b.awaitsOtherwise := by
  obtain ⟨opening, body, otherwise⟩ := b
  cases otherwise <;> cases opening <;> rfl

namespace Outline

variable {o : Outline} {b : BlockOutline}

/-- A statement ends the open section and then acts by its word, if it has one. -/
theorem apply_statement (o : Outline) (keyword : Token) (rest : Option Token) :
    o.apply (.statement keyword rest) =
      match (Item.statement keyword rest).word? with
      | some word =>
        (o.finishSection.setLine true false).perform word (Item.statement keyword rest).arguments
      | none => o.finishSection.setLine true false := by
  cases rest <;> rfl

/-- The end of a section does not touch blocks. -/
theorem openBlock_finishSection (o : Outline) :
    o.finishSection.openBlock = o.openBlock ∧ o.finishSection.blocks = o.blocks := by
  unfold finishSection
  split <;> exact ⟨rfl, rfl⟩

/-- Inside an open block a statement does nothing to the block unless it ends it or begins its
alternative. -/
theorem perform_of_openBlock (hblock : o.openBlock = some b) {word : Draft.StatementWord}
    (hfinish : word ≠ .finish) (hotherwise : word = .otherwise → b.awaitsOtherwise = false)
    (arguments : Text) :
    (o.perform word arguments).openBlock = some b ∧
      (o.perform word arguments).blocks = o.blocks := by
  cases word with
  | conditional =>
    rw [perform, conditional_eq_openNew, openNew_of_openBlock hblock]
    exact ⟨hblock, rfl⟩
  | forEach =>
    rw [perform, forEach_eq_openNew, openNew_of_openBlock hblock]
    exact ⟨hblock, rfl⟩
  | onError =>
    rw [perform, openNew_of_openBlock hblock]
    exact ⟨hblock, rfl⟩
  | otherwise =>
    have hnone := hotherwise rfl
    have hsame : o.otherwise arguments = o := by
      unfold otherwise
      split
      · rename_i hopen
        rw [hblock] at hopen
        cases hopen
        cases hnone
      · rfl
    rw [perform, hsame]
    exact ⟨hblock, rfl⟩
  | finish => exact absurd rfl hfinish
  | callApi =>
    unfold perform callApi
    dsimp only
    split <;> exact ⟨hblock, rfl⟩

/-- An open block collects what does not end it or begin its alternative. -/
theorem apply_of_openBlock {item : Item} (hblock : o.openBlock = some b) (hknown : item.IsKnown)
    (hstay : item.endsBlock = false)
    (hotherwise : item.isOtherwise = true → b.awaitsOtherwise = false) :
    (o.apply item).openBlock =
        some (b.edit fun buffer => ((o.collecting buffer).step item).buffer) ∧
      (o.apply item).blocks = o.blocks ∧
      ∀ buffer, (o.apply item).collecting ((o.collecting buffer).step item).buffer =
        (o.collecting buffer).step item := by
  cases item with
  | header t kind => cases hstay
  | statement keyword rest =>
    -- a statement gives the block no text, but what comes next stands at the start of a line
    have hbuffer (buffer : TextBuffer) :
        ((o.collecting buffer).step (.statement keyword rest)).buffer = buffer := buffer.push_nil
    have hready : (o.finishSection.setLine true false).openBlock = some b :=
      (openBlock_finishSection o).1.trans hblock
    obtain ⟨hblank, hreference⟩ := o.isFresh_statement keyword.text (rest.map (·.text))
    have happly : (o.apply (.statement keyword rest)).openBlock = some b ∧
        (o.apply (.statement keyword rest)).blocks = o.blocks := by
      rw [apply_statement]
      cases hword : (Item.statement keyword rest).word? with
      | none => exact ⟨hready, (openBlock_finishSection o).2⟩
      | some word =>
        have hfinish : word ≠ .finish := by
          rintro rfl
          simp [Item.endsBlock, hword] at hstay
        have hother : word = .otherwise → b.awaitsOtherwise = false := by
          rintro rfl
          exact hotherwise (by simp [Item.isOtherwise, hword])
        obtain ⟨hopen, hblocks⟩ := perform_of_openBlock hready hfinish hother
          (Item.statement keyword rest).arguments
        exact ⟨hopen, hblocks.trans (openBlock_finishSection o).2⟩
    refine ⟨?_, happly.2, fun buffer => ?_⟩
    · simp only [hbuffer, BlockOutline.edit_id]
      exact happly.1
    · simp only [collecting, apply, hblank, hreference]
      rfl
  | text t =>
    have hopen : o.openBlock = none → o.openSection = none := by simp [hblock]
    rw [apply, text_eq_collect fun _ _ _ _ => hopen, collect, edit_of_openBlock hblock]
    exact ⟨rfl, rfl, fun _ => rfl⟩
  | reference start name target tail =>
    rw [apply, reference_eq_collect start name, collect, edit_of_openBlock hblock]
    exact ⟨rfl, rfl, fun _ => rfl⟩
  | stray => exact absurd hknown id

/-- An open block collects items in a row. -/
theorem applyAll_of_openBlock {items : List Item} (hblock : o.openBlock = some b)
    (hknown : ∀ item ∈ items, item.IsKnown) (hstay : ∀ item ∈ items, item.endsBlock = false)
    (hotherwise : ∀ item ∈ items, item.isOtherwise = true → b.awaitsOtherwise = false) :
    (o.applyAll items).openBlock =
        some (b.edit fun buffer => ((o.collecting buffer).run items).buffer) ∧
      (o.applyAll items).blocks = o.blocks := by
  induction items generalizing o b with
  | nil =>
    have hsame : (b.edit fun buffer => ((o.collecting buffer).run []).buffer) = b := b.edit_id
    exact ⟨hblock.trans (congrArg some hsame.symm), rfl⟩
  | cons item items ih =>
    obtain ⟨hknown, hknowns⟩ := List.forall_mem_cons.mp hknown
    obtain ⟨hstay, hstays⟩ := List.forall_mem_cons.mp hstay
    obtain ⟨hother, hothers⟩ := List.forall_mem_cons.mp hotherwise
    obtain ⟨hopen, hblocks, hcollecting⟩ := apply_of_openBlock hblock hknown hstay hother
    obtain ⟨hopens, hsame⟩ := ih hopen hknowns hstays
      (by simpa only [BlockOutline.awaitsOtherwise_edit] using hothers)
    rw [applyAll_cons, hopens, hsame, hblocks, BlockOutline.edit_edit]
    simp only [hcollecting, Collecting.run_cons, and_self]

/-- The first ELSE of a condition begins the text of the alternative. -/
theorem apply_isOtherwise {condition : Condition} {body : TextBuffer} {item : Item}
    (hblock : o.openBlock = some ⟨.conditional condition, body, none⟩)
    (hitem : item.isOtherwise = true) :
    (o.apply item).openBlock =
        some ⟨.conditional condition, body, some (.ofLine item.arguments)⟩ ∧
      (o.apply item).blocks = o.blocks ∧
      ∀ buffer, (o.apply item).collecting buffer = ⟨buffer, true, false⟩ := by
  cases item with
  | statement keyword rest =>
    have hword : (Item.statement keyword rest).word? = some .otherwise := by
      simpa [Item.isOtherwise] using hitem
    have hready : (o.finishSection.setLine true false).openBlock =
        some ⟨.conditional condition, body, none⟩ := (openBlock_finishSection o).1.trans hblock
    rw [apply_statement, hword]
    simp only [perform, otherwise, hready]
    exact ⟨trivial, (openBlock_finishSection o).2, fun _ => rfl⟩
  | _ => cases hitem

/-- Where no block is open, text is collected in none. -/
theorem edit_of_not_openBlock (hblock : o.openBlock = none) (change : TextBuffer → TextBuffer) :
    (o.edit change).blocks = o.blocks ∧ (o.edit change).openBlock = none := by
  rw [edit, hblock]
  cases o.openSection with
  | none => exact ⟨rfl, hblock⟩
  | some s => exact ⟨rfl, rfl⟩

/-- Where no block is open, none ends. -/
theorem finishBlock_of_not_openBlock (hblock : o.openBlock = none) : o.finishBlock = o := by
  rw [finishBlock, hblock]

/-- Where no block is open, text opens none. -/
theorem text_of_not_openBlock (hblock : o.openBlock = none) (t : Text) :
    (o.text t).blocks = o.blocks ∧ (o.text t).openBlock = none := by
  unfold text
  split
  · split
    · exact edit_of_not_openBlock hblock _
    · rw [hblock]
      exact ⟨(openBlock_finishSection o).2, (openBlock_finishSection o).1.trans hblock⟩
  · exact edit_of_not_openBlock hblock _

/-- Where no block is open, a statement opens one exactly if it is an opening. -/
theorem statement_of_not_openBlock (hblock : o.openBlock = none) (keyword : Token)
    (rest : Option Token) :
    (o.apply (.statement keyword rest)).blocks = o.blocks ∧
      (o.apply (.statement keyword rest)).openBlock =
        (Item.statement keyword rest).opening?.map fun x => ⟨x.1, .ofLine x.2, none⟩ := by
  obtain ⟨hopen, hblocks⟩ := openBlock_finishSection o
  have hready : (o.finishSection.setLine true false).openBlock = none := hopen.trans hblock
  have hnew (opening : Opening) (t : Text) :
      ((o.finishSection.setLine true false).openNew opening t).blocks = o.blocks ∧
        ((o.finishSection.setLine true false).openNew opening t).openBlock =
          some ⟨opening, .ofLine t, none⟩ := by
    rw [openNew, hready]
    exact ⟨hblocks, rfl⟩
  rw [apply_statement, Item.opening?]
  cases (Item.statement keyword rest).word? with
  | none => exact ⟨hblocks, hready⟩
  | some word =>
    cases word with
    | conditional =>
      simp only [perform, conditional_eq_openNew]
      exact hnew ..
    | forEach =>
      simp only [perform, forEach_eq_openNew]
      exact hnew ..
    | onError => exact hnew ..
    | otherwise =>
      simp only [perform, otherwise, hready]
      exact ⟨hblocks, rfl⟩
    | finish =>
      simp only [perform, finishBlock_of_not_openBlock hready]
      exact ⟨hblocks, hready⟩
    | callApi =>
      simp only [perform, callApi]
      split <;> exact ⟨hblocks, hready⟩

/-- Where no block is open, an opening opens one with the rest of its line, and no other item opens
any. -/
theorem apply_of_not_openBlock {item : Item} (hblock : o.openBlock = none) (hknown : item.IsKnown) :
    (o.apply item).blocks = o.blocks ∧
      (o.apply item).openBlock = item.opening?.map fun x => ⟨x.1, .ofLine x.2, none⟩ := by
  obtain ⟨hopen, hblocks⟩ := openBlock_finishSection o
  cases item with
  | header t kind =>
    have hclose : o.close = o.finishSection := finishBlock_of_not_openBlock (hopen.trans hblock)
    rw [apply, header, hclose]
    exact ⟨hblocks, hopen.trans hblock⟩
  | statement keyword rest => exact statement_of_not_openBlock hblock keyword rest
  | text t => exact text_of_not_openBlock hblock t.text
  | reference start name target tail =>
    rw [apply, reference_eq_collect start name target]
    exact edit_of_not_openBlock hblock _
  | stray => exact absurd hknown id

/-- A statement leaves a new line. -/
theorem collecting_apply_of_opening? {item : Item} (h : item.opening?.isSome = true)
    (buffer : TextBuffer) : (o.apply item).collecting buffer = ⟨buffer, true, false⟩ := by
  cases item with
  | statement keyword rest =>
    obtain ⟨hblank, hreference⟩ := o.isFresh_statement keyword.text (rest.map (·.text))
    simp only [collecting, apply, hblank, hreference]
  | _ => cases h

/-- The items of a condition give it the text before its first ELSE and that of its alternative. -/
theorem applyAll_of_conditional {condition : Condition} {line : Text} {items : List Item}
    (hblock : o.openBlock = some ⟨.conditional condition, .ofLine line, none⟩)
    (hline : ∀ buffer, o.collecting buffer = ⟨buffer, true, false⟩)
    (hknown : ∀ item ∈ items, item.IsKnown) (hstay : ∀ item ∈ items, item.endsBlock = false) :
    ∃ b, (o.applyAll items).openBlock = some b ∧
      b.block.parts = (BlockRegion.mk (.conditional condition) line items).parts ∧
      (o.applyAll items).blocks = o.blocks := by
  have hstart : o.collecting (.ofLine line) = .ofLine line := hline _
  obtain ⟨hopen, hblocks⟩ := applyAll_of_openBlock hblock
    (fun i hi => hknown i (Item.mem_before (p := Item.isOtherwise) hi).1)
    (fun i hi => hstay i (Item.mem_before (p := Item.isOtherwise) hi).1)
    (fun i hi hother => by simp [(Item.mem_before hi).2] at hother)
  have hsplit := items.takeWhile_append_dropWhile (p := (!·.isOtherwise))
  cases hafter : items.dropWhile (!·.isOtherwise) with
  | nil =>
    have hall : items.takeWhile (!·.isOtherwise) = items := by
      rwa [hafter, List.append_nil] at hsplit
    rw [hall] at hopen hblocks
    refine ⟨_, hopen, ?_, hblocks⟩
    simp only [BlockOutline.edit, hstart, BlockRegion.parts, BlockRegion.branches,
      Branch.otherwise, hall, hafter]
    rfl
  | cons item rest =>
    have hitem : item.isOtherwise = true := Item.head?_after item (by rw [hafter]; rfl)
    have hrest : ∀ i ∈ rest, i ∈ items := fun i hi =>
      (List.dropWhile_suffix _).subset (hafter ▸ List.mem_cons_of_mem item hi)
    obtain ⟨hother, hsame, hfresh⟩ := apply_isOtherwise hopen hitem
    obtain ⟨hlast, hstill⟩ := applyAll_of_openBlock hother
      (fun i hi => hknown i (hrest i hi)) (fun i hi => hstay i (hrest i hi)) (fun _ _ _ => rfl)
    have hread : o.applyAll items =
        ((o.applyAll (items.takeWhile (!·.isOtherwise))).apply item).applyAll rest := by
      rw [← applyAll_cons, ← hafter, ← applyAll_append, hsplit]
    rw [hread]
    refine ⟨_, hlast, ?_, hstill.trans (hsame.trans hblocks)⟩
    simp only [BlockOutline.edit, hstart, hfresh, BlockRegion.parts, BlockRegion.branches,
      Branch.otherwise, hafter]
    rfl

/-- The items of a region give the block that it opens the texts of its branches. -/
theorem applyAll_of_region {opening : Opening} {line : Text} {items : List Item}
    (hblock : o.openBlock = some ⟨opening, .ofLine line, none⟩)
    (hline : ∀ buffer, o.collecting buffer = ⟨buffer, true, false⟩)
    (hknown : ∀ item ∈ items, item.IsKnown) (hstay : ∀ item ∈ items, item.endsBlock = false) :
    ∃ b, (o.applyAll items).openBlock = some b ∧
      b.block.parts = (BlockRegion.mk opening line items).parts ∧
      (o.applyAll items).blocks = o.blocks := by
  have hstart : o.collecting (.ofLine line) = .ofLine line := hline _
  cases opening with
  | conditional condition => exact applyAll_of_conditional hblock hline hknown hstay
  | forEach | onError =>
    -- any other block waits for no alternative, so all its items are of one branch
    obtain ⟨hopen, hblocks⟩ := applyAll_of_openBlock hblock hknown hstay fun _ _ _ => rfl
    refine ⟨_, hopen, ?_, hblocks⟩
    simp only [BlockOutline.edit, hstart]
    rfl

/-- What ends a block does so whether the block is finished before or not. -/
theorem apply_finishBlock {item : Item} (h : item.endsBlock = true) :
    o.finishBlock.apply item = o.apply item := by
  have hclose : o.finishBlock.finishSection.finishBlock = o.finishSection.finishBlock := by
    obtain ⟨_, _, _, _, openSection, openBlock, _, _⟩ := o
    cases openBlock <;> cases openSection <;> rfl
  cases item with
  | header t kind =>
    have hclosed : o.finishBlock.close = o.close := hclose
    rw [apply, apply, header, header, hclosed]
  | statement keyword rest =>
    have hword : (Item.statement keyword rest).word? = some .finish := by
      simpa [Item.endsBlock] using h
    have hready (m : Outline) :
        (m.setLine true false).finishBlock = m.finishBlock.setLine true false := by
      obtain ⟨_, _, _, _, _, openBlock, _, _⟩ := m
      cases openBlock <;> rfl
    rw [apply_statement, apply_statement, hword]
    simp only [perform, hready, hclose]
  | _ => cases h

/-- A finished block does not change what comes after it. -/
theorem close_applyAll_finishBlock {items : List Item}
    (h : ∀ item ∈ items.head?, item.endsBlock = true) :
    (o.finishBlock.applyAll items).close = (o.applyAll items).close := by
  cases items with
  | nil =>
    obtain ⟨_, _, _, _, openSection, openBlock, _, _⟩ := o
    cases openBlock <;> cases openSection <;> rfl
  | cons item items => rw [applyAll_cons, applyAll_cons, apply_finishBlock (h item rfl)]

/-- The blocks of a script are those of its regions, with the texts collected from them. -/
theorem blocks_close {items : List Item} (hknown : ∀ item ∈ items, item.IsKnown)
    (hblock : o.openBlock = none) : (o.applyAll items).close.blocks.map Block.parts =
      o.blocks.map Block.parts ++ (Item.blockRegions items).map BlockRegion.parts := by
  induction items using Item.blockRegions.induct generalizing o with
  | case1 =>
    have hopen : o.finishSection.openBlock = none := (openBlock_finishSection o).1.trans hblock
    rw [applyAll_nil, close, finishBlock_of_not_openBlock hopen, (openBlock_finishSection o).2,
      Item.blockRegions]
    simp
  | case2 item rest opening line hopening ih =>
    obtain ⟨hitem, hrest⟩ := List.forall_mem_cons.mp hknown
    obtain ⟨hblocks, hopen⟩ := apply_of_not_openBlock hblock hitem
    rw [hopening] at hopen
    have hline := fun buffer => o.collecting_apply_of_opening? (by rw [hopening]; rfl) buffer
    obtain ⟨b, hb, hparts, hsame⟩ := applyAll_of_region hopen hline
      (fun i hi => hrest i (Item.mem_before hi).1)
      (fun i hi => (Item.mem_before (p := Item.endsBlock) hi).2)
    have hsplit := rest.takeWhile_append_dropWhile (p := (!·.endsBlock))
    have hfinish : ((o.apply item).applyAll (rest.takeWhile (!·.endsBlock))).finishBlock.blocks =
        o.blocks ++ [b.block] := by
      rw [finishBlock, hb, ← hblocks, ← hsame]
    have hnone : ((o.apply item).applyAll
        (rest.takeWhile (!·.endsBlock))).finishBlock.openBlock = none := by
      rw [finishBlock, hb]
    have hmore := ih (fun i hi => hrest i ((List.dropWhile_suffix _).subset hi)) hnone
    rw [close_applyAll_finishBlock Item.head?_after, ← applyAll_append, hsplit, hfinish] at hmore
    rw [applyAll_cons, hmore, Item.blockRegions, hopening]
    simp [hparts]
  | case3 item rest hopening ih =>
    obtain ⟨hitem, hrest⟩ := List.forall_mem_cons.mp hknown
    obtain ⟨hblocks, hopen⟩ := apply_of_not_openBlock hblock hitem
    rw [hopening] at hopen
    rw [applyAll_cons, ih hrest hopen, hblocks, Item.blockRegions, hopening]

end Outline

end PromptScript
