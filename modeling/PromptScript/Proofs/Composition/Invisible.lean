import PromptScript.Proofs.Blocks.Ledger
import PromptScript.Proofs.Composition.Front
import PromptScript.Proofs.Composition.Places
import PromptScript.Proofs.RoundTrip.Sections

/-!
# Lines of references

A line that holds nothing but references is invisible to the sections around it. The white space on
it is collected and dropped again with the line, so the outline past the line is the one before it
with the references of the line; and no section depends on the references before it.
-/

namespace PromptScript

open BlockAutomaton (Pending State)

namespace Outline

variable (o : Outline)

/-- Items further down change an outline in the same way. -/
theorem applyAll_down (n : Nat) (items : List Item) :
    o.applyAll (items.map (Item.down n)) = o.applyAll items := by
  rw [Item.down_eq_map, applyAll_map (Token.onlyMoves_down n)]

/-- An empty script leaves an outline as it is. -/
theorem read_nil : o.read (.ofText []) = o := by
  have htokens : (Lexer.ofText []).tokens = [⟨.eof, [], .start⟩] := Lexer.tokens_ahead_nil ..
  rw [read, htokens, Item.ofTokens, if_pos rfl]
  rfl

/-- After lines that leave nothing open, a script is read as it is alone. -/
theorem read_append {a : Text} (ha : a = [] ∨ Text.endsLine a = true)
    (hclosed : ∀ t ∈ Token.ofText a, t.kind ≠ .error) (b : Text) :
    o.read (.ofText (a ++ b)) = (o.read (.ofText a)).read (.ofText b) := by
  rcases ha with rfl | ha
  · rw [read_nil, List.nil_append]
  · have hitems := Item.ofTokens_append b ha hclosed
    have hboth : o.read (.ofText (a ++ b)) = o.applyAll (Item.ofTokens (Token.ofText (a ++ b))) := rfl
    rw [hboth, hitems, applyAll_append, applyAll_down]
    rfl

/-- An outline with other references. -/
def withReferences (references : List FormReference) : Outline :=
  { o with references }

variable (references : List FormReference)

/-- Text is collected without regard to the references. -/
theorem edit_withReferences (change : TextBuffer → TextBuffer) :
    (o.withReferences references).edit change = (o.edit change).withReferences references := by
  unfold edit withReferences
  dsimp only
  split <;> rfl

/-- A section ends without regard to the references. -/
theorem finishSection_withReferences :
    (o.withReferences references).finishSection = o.finishSection.withReferences references := by
  unfold finishSection withReferences
  dsimp only
  split <;> rfl

/-- A block ends without regard to the references. -/
theorem finishBlock_withReferences :
    (o.withReferences references).finishBlock = o.finishBlock.withReferences references := by
  unfold finishBlock withReferences
  dsimp only
  split <;> rfl

/-- What is open is closed without regard to the references. -/
theorem close_withReferences :
    (o.withReferences references).close = o.close.withReferences references := by
  rw [close, finishSection_withReferences, finishBlock_withReferences, close]

/-- A fragment of text does the same whatever references came before it. -/
theorem text_withReferences (t : Text) :
    (o.withReferences references).text t = (o.text t).withReferences references := by
  unfold text
  rw [edit_withReferences, edit_withReferences, finishSection_withReferences]
  unfold withReferences
  dsimp only
  split
  · split
    · rfl
    · split <;> rfl
  · rfl

/-- A block is opened without regard to the references. -/
theorem openNew_withReferences (opening : Opening) (rest : Text) :
    (o.withReferences references).openNew opening rest =
      (o.openNew opening rest).withReferences references := by
  unfold openNew withReferences
  dsimp only
  split <;> rfl

/-- ELSE does the same whatever references came before it. -/
theorem otherwise_withReferences (arguments : Text) :
    (o.withReferences references).otherwise arguments =
      (o.otherwise arguments).withReferences references := by
  unfold otherwise withReferences
  dsimp only
  split <;> rfl

/-- A call does the same whatever references came before it. -/
theorem callApi_withReferences (arguments : Text) :
    (o.withReferences references).callApi arguments =
      (o.callApi arguments).withReferences references := by
  unfold callApi
  split <;> rfl

/-- The word of a statement does the same whatever references came before it. -/
theorem perform_withReferences (word : Draft.StatementWord) (arguments : Text) :
    (o.withReferences references).perform word arguments =
      (o.perform word arguments).withReferences references := by
  cases word with
  | conditional =>
    rw [perform, perform, conditional, conditional]
    split <;> exact openNew_withReferences ..
  | forEach =>
    rw [perform, perform, forEach, forEach]
    split <;> exact openNew_withReferences ..
  | onError => exact openNew_withReferences ..
  | otherwise => exact otherwise_withReferences o references arguments
  | finish => exact finishBlock_withReferences o references
  | callApi => exact callApi_withReferences o references arguments

/-- A statement does the same whatever references came before it. -/
theorem statement_withReferences (keyword : Text) (rest : Option Text) :
    (o.withReferences references).statement keyword rest =
      (o.statement keyword rest).withReferences references := by
  unfold statement
  rw [finishSection_withReferences]
  split
  · exact perform_withReferences (o.finishSection.setLine true false) references _ _
  · rfl

/-- A reference is added to those that came before it and does nothing else with them. -/
theorem reference_withReferences (found : FormReference) (endsLine : Bool) :
    (o.withReferences references).reference found endsLine =
      (o.reference found endsLine).withReferences (references ++ [found]) := by
  unfold reference withReferences
  dsimp only
  split
  · split
    · unfold edit
      dsimp only
      split <;> rfl
    · rfl
  · rfl

/-- What an item does does not depend on the references before it. -/
theorem apply_withReferences (item : Item) :
    (o.withReferences references).apply item =
      (o.apply item).withReferences (references ++ item.reference?.toList) := by
  cases item with
  | header t kind =>
    have hnone : (Item.header t kind).reference?.toList = [] := rfl
    rw [hnone, List.append_nil, apply, apply, header, close_withReferences]
    rfl
  | statement keyword rest =>
    have hnone : (Item.statement keyword rest).reference?.toList = [] := rfl
    rw [hnone, List.append_nil]
    exact statement_withReferences o references _ _
  | text t =>
    have hnone : (Item.text t).reference?.toList = [] := rfl
    rw [hnone, List.append_nil]
    exact text_withReferences o references t.text
  | reference start name target tail => exact reference_withReferences o references _ _
  | stray t skipped =>
    have hnone : (Item.stray t skipped).reference?.toList = [] := rfl
    rw [hnone, List.append_nil]
    rfl

/-- Items in a row add their own references to those that came before them and do nothing else with
them. -/
theorem applyAll_withReferences (items : List Item) :
    (o.withReferences references).applyAll items =
      (o.applyAll items).withReferences (references ++ items.filterMap Item.reference?) := by
  induction items generalizing o references with
  | nil => rw [List.filterMap_nil, List.append_nil, applyAll_nil, applyAll_nil]
  | cons item items ih =>
    rw [applyAll_cons, apply_withReferences, ih, applyAll_cons, List.append_assoc,
      Item.references_cons]

/-- Whether an outline is one at the start of a line outside blocks: nothing of the line was seen
or collected. -/
structure IsAtLineStart (o : Outline) : Prop where
  /-- Nothing was seen on the line. -/
  lineBlank : o.lineBlank = true
  /-- No reference was spliced out of the line. -/
  lineHasReference : o.lineHasReference = false
  /-- No block is open. -/
  openBlock : o.openBlock = none
  /-- Nothing of the line is in the open section. -/
  pending : ∀ s ∈ o.openSection, s.body.pending = []

variable {o} {t : Text}

/-- Outside blocks the text of the open section is changed. -/
theorem edit_of_idle (h : o.openBlock = none) (change : TextBuffer → TextBuffer) :
    o.edit change = { o with
      openSection := o.openSection.map fun s => { s with body := change s.body } } := by
  obtain ⟨sections, references, blocks, apiCalls, openSection, openBlock, lineBlank, hasReference⟩ := o
  obtain rfl : openBlock = none := h
  cases openSection <;> rfl

/-- Text opens no block and ends none. -/
theorem openBlock_of_text (h : (o.text t).openBlock = none) : o.openBlock = none := by
  cases hb : o.openBlock with
  | none => rfl
  | some b =>
    unfold text at h
    simp only [edit_of_openBlock hb, hb] at h
    split at h
    · split at h <;> cases h
    · cases h

/-- Text that ends a line leads to the start of the next one. -/
theorem isAtLineStart_text (ht : Text.endsLine t = true) (hblock : (o.text t).openBlock = none) :
    (o.text t).IsAtLineStart := by
  have hidle := openBlock_of_text hblock
  have hmapped {change : TextBuffer → TextBuffer} (hchange : ∀ b, (change b).pending = []) :
      ∀ s ∈ o.openSection.map (fun s => { s with body := change s.body }), s.body.pending = [] := by
    intro s hs
    obtain ⟨found, -, rfl⟩ := Option.map_eq_some_iff.mp hs
    exact hchange found.body
  unfold text
  split
  · rename_i hline
    split
    · rw [edit_of_idle hidle]
      exact ⟨hline.1, rfl, hidle, hmapped fun _ => rfl⟩
    · rename_i hreference
      rw [hidle]
      have hkeep : o.finishSection.lineBlank = o.lineBlank ∧
          o.finishSection.lineHasReference = o.lineHasReference ∧
            o.finishSection.openBlock = o.openBlock := by
        unfold finishSection
        split <;> exact ⟨rfl, rfl, rfl⟩
      refine ⟨hkeep.1.trans hline.1, hkeep.2.1.trans (by simpa using hreference),
        hkeep.2.2.trans hidle, fun s hs => ?_⟩
      rw [IsSound.openSection_finishSection] at hs
      cases hs
  · rw [edit_of_idle hidle, ht]
    have hpush (b : TextBuffer) : (b.push t).pending = [] := by rw [TextBuffer.push, if_pos ht]
    exact ⟨rfl, Bool.and_false _, hidle, hmapped hpush⟩

end Outline

namespace Draft

/-- A statement with the rest of its line leads to the start of the next one. -/
theorem isAtLineStart_statement (d : Draft) (keyword : Token) (rest : Option Token)
    (hblock : (d.statement keyword rest).openBlock = none) :
    (d.statement keyword rest).outline.IsAtLineStart := by
  obtain ⟨hline, hreference⟩ := d.line_statement keyword rest
  have hsection := d.openSection_statement keyword rest
  refine ⟨hline, hreference, ?_, fun s hs => ?_⟩
  · rw [outline_openBlock, hblock]
    rfl
  · rw [outline, hsection] at hs
    cases hs

/-- The block that is open past lines that leave nothing else open is the one that the automaton is
inside of past their keywords. -/
theorem view_before {pre : Text} (hpre : pre = [] ∨ Text.endsLine pre = true)
    (hclosed : ∀ t ∈ Token.ofText pre, t.kind ≠ .error) (post : Text) :
    (empty.applyAll (Item.ofTokens (Token.ofText pre))).openBlock.map OpenBlock.view =
      (State.past none ((Token.before (.after pre) (Token.ofText (pre ++ post))).filter
        Token.isBlockKeyword)).map Pending.view := by
  have hgroups := Item.groups_ofText pre
  obtain ⟨last, -, hbefore⟩ := Token.exists_before_append hpre hclosed post
  obtain ⟨final, -, hflat⟩ := hgroups.exists_last
  have hitems := (List.append_inj' (hflat.symm.trans hbefore) rfl).1
  have horder := Token.pairwise_ofText pre
  rw [hflat] at horder
  have hmoves := moves_items (d := empty) (s := none) hgroups.isWhole (List.pairwise_append.mp horder).1
    rfl fun opener ho => absurd ho List.not_mem_nil
  rw [← hitems]
  exact hmoves.current

end Draft

/-- Lines that leave nothing open lead to the start of a line. -/
theorem Outline.isAtLineStart_read {source : Text}
    (hsource : source = [] ∨ Text.endsLine source = true)
    (hclosed : ∀ t ∈ Token.ofText source, t.kind ≠ .error)
    (hblock : (Draft.empty.applyAll (Item.ofTokens (Token.ofText source))).openBlock = none) :
    (empty.read (.ofText source)).IsAtLineStart := by
  have houtline : empty.read (.ofText source) =
      (Draft.empty.applyAll (Item.ofTokens (Token.ofText source))).outline :=
    (Draft.empty.outline_applyAll
      (Item.isKnown_of_grammar (Token.grammar_ofText source))).symm
  have hread : empty.read (.ofText source) =
      empty.applyAll (Item.ofTokens (Token.ofText source)) := rfl
  have hempty : empty.IsAtLineStart := ⟨rfl, rfl, rfl, fun s hs => by cases hs⟩
  rcases hsource with rfl | hends
  · rwa [read_nil]
  rcases List.eq_nil_or_concat' (Item.ofTokens (Token.ofText source)) with hnil | ⟨init, item, hitems⟩
  · rwa [hread, hnil]
  obtain ⟨t, -, hline, hitem⟩ := Item.last_of_endsLine hends hclosed item
    (by rw [hitems, List.getLast?_concat]; rfl)
  rcases hitem with rfl | ⟨keyword, rfl⟩
  · have hlast : empty.read (.ofText source) = (empty.applyAll init).text t.text := by
      rw [hread, hitems, applyAll_append]
      rfl
    rw [hlast]
    refine isAtLineStart_text hline ?_
    rw [← hlast, houtline, Draft.outline_openBlock, hblock]
    rfl
  · have hlast : Draft.empty.applyAll (Item.ofTokens (Token.ofText source)) =
        (Draft.empty.applyAll init).statement keyword (some t) := by
      rw [hitems, Draft.applyAll, List.foldl_append]
      rfl
    rw [houtline, hlast]
    exact Draft.isAtLineStart_statement _ keyword (some t) (hlast ▸ hblock)

/-- Whether a text is a line that holds nothing but references: outside their bodies there is only
white space, and only its end is the end of a line. -/
structure Text.IsReferenceLine (r : Text) : Prop where
  /-- It ends with a line break. -/
  endsLine : Text.endsLine r = true
  /-- It holds a reference. -/
  exists_reference : ∃ t ∈ Token.ofText r, t.kind = .referenceStart
  /-- It holds no error, no header and no statement. -/
  kind_ne : ∀ t ∈ Token.ofText r,
    t.kind ≠ .error ∧ t.kind ≠ .sectionKeyword ∧ t.kind ≠ .statementKeyword
  /-- Its text outside bodies is blank, and only before the end of the script a line ends. -/
  text_blank : ∀ i (h : i < (Token.ofText r).length), ¬Token.InBody ((Token.ofText r).take i) →
    (Token.ofText r)[i].kind = .text → (Token.ofText r)[i].isBlank = true ∧
      ((Token.ofText r)[i].endsLine = true → i + 2 = (Token.ofText r).length)

namespace Item

/-- Whether an item is white space or a reference within a line. -/
def IsInline : Item → Prop
  | .text t => t.isBlank = true ∧ t.endsLine = false
  | .reference _ _ _ tail => tail.endsLine = false
  | _ => False

/-- What follows a name and a target closes the braces it opens. -/
theorem Tail.IsWhole.isBalanced {tail : Tail} (h : tail.IsWhole) : Token.IsBalanced tail.tokens := by
  cases tail with
  | none => rfl
  | braced opening inner closing => exact (Token.Tail.braced h.1 h.2.1).isBalanced
  | unterminated mark recovered =>
    refine Token.isBalanced_of_forall (List.forall_mem_cons.mpr ⟨by simp [h.1], fun t ht => ?_⟩)
    simp [h.2 t ht]

/-- An item closes the braces it opens. -/
theorem IsWhole.isBalanced {item : Item} (h : item.IsWhole) : Token.IsBalanced item.tokens := by
  cases item with
  | header t kind => exact Token.isBalanced_of_forall (List.forall_mem_singleton.mpr (by simp [h.1]))
  | statement keyword rest =>
    refine Token.isBalanced_of_forall (List.forall_mem_cons.mpr ⟨by simp [h.1], fun t ht => ?_⟩)
    simp [h.2.2 t (by simpa using ht)]
  | text t =>
    have hkind : t.kind = .text := h
    exact Token.isBalanced_of_forall (List.forall_mem_singleton.mpr (by simp [hkind]))
  | reference start name target tail =>
    obtain ⟨hstart, hname, htarget, htail⟩ := h
    have hhead : Token.IsBalanced (start :: (name.toList ++ target.toList)) := by
      refine Token.isBalanced_of_isHead (List.forall_mem_cons.mpr ⟨Or.inl hstart,
        List.forall_mem_append.mpr ⟨fun t ht => ?_, fun t ht => ?_⟩⟩)
      · exact Or.inr (Or.inl (hname t (by simpa using ht)))
      · exact Or.inr (Or.inr (htarget t (by simpa using ht)))
    have hall := hhead.append htail.isBalanced
    rwa [List.cons_append, List.append_assoc] at hall
  | stray => exact absurd h id

/-- An item with the start of a reference is a reference. -/
theorem exists_reference_of_mem {item : Item} {start : Token} (h : item.IsWhole)
    (hmem : start ∈ item.tokens) (hkind : start.kind = .referenceStart) :
    ∃ name target tail, item = .reference start name target tail := by
  obtain ⟨t, more, hhead, -, -⟩ := h.exists_head
  have hlater := h.kind_not_mem start
  rw [hhead] at hmem hlater
  have hfirst : start = t := (List.mem_cons.mp hmem).resolve_right fun hmore =>
    hlater hmore (by rw [hkind]; decide)
  subst hfirst
  cases item with
  | header t kind =>
    obtain ⟨rfl, -⟩ := List.cons.inj hhead
    exact absurd hkind (by rw [h.1]; decide)
  | statement keyword rest =>
    obtain ⟨rfl, -⟩ := List.cons.inj hhead
    exact absurd hkind (by rw [h.1]; decide)
  | text t =>
    obtain ⟨rfl, -⟩ := List.cons.inj hhead
    exact absurd (hkind.symm.trans h) (by decide)
  | reference first name target tail =>
    obtain ⟨rfl, -⟩ := List.cons.inj hhead
    exact ⟨name, target, tail, rfl⟩
  | stray => exact absurd h id

/-- Items close the braces they open. -/
theorem isBalanced_flatMap {items : List Item} (h : ∀ item ∈ items, item.IsWhole) :
    Token.IsBalanced (items.flatMap Item.tokens) := by
  induction items with
  | nil => rfl
  | cons item items ih =>
    obtain ⟨hitem, hitems⟩ := List.forall_mem_cons.mp h
    rw [List.flatMap_cons]
    exact hitem.isBalanced.append (ih hitems)

end Item

namespace Text.IsReferenceLine

variable {r : Text} {items more : List Item} {t : Token}

/-- The tokens of the items of a line are those of its text. -/
theorem mem_tokens {item : Item} (hitem : item ∈ Item.ofTokens (Token.ofText r))
    (ht : t ∈ item.tokens) : t ∈ Token.ofText r :=
  ((Item.groups_ofText r).sublist hitem).subset ht

/-- An item of text is blank, and only the last one ends a line. -/
theorem text_of_append (h : r.IsReferenceLine)
    (hitems : Item.ofTokens (Token.ofText r) = items ++ .text t :: more) :
    t.isBlank = true ∧ (t.endsLine = true → more = []) := by
  have hgroups := Item.groups_ofText r
  obtain ⟨last, -, htokens⟩ := hgroups.exists_last
  have hwhole := hgroups.isWhole
  rw [hitems] at htokens hwhole
  have hbalanced := Item.isBalanced_flatMap fun item hitem =>
    hwhole item (List.mem_append_left _ hitem)
  have hsplit : Token.ofText r =
      items.flatMap Item.tokens ++ t :: (more.flatMap Item.tokens ++ [last]) := by
    rw [htokens]
    simp [Item.tokens]
  have hkind : t.kind = .text := hwhole (.text t) (by simp)
  have htext := h.text_blank (items.flatMap Item.tokens).length
  simp only [hsplit, List.take_left, List.getElem_append_right (Nat.le_refl _), Nat.sub_self,
    List.getElem_cons_zero] at htext
  obtain ⟨hblank, hends⟩ := htext (by simp) hbalanced.not_inBody hkind
  refine ⟨hblank, fun hline => ?_⟩
  have hlength := hends hline
  cases more with
  | nil => rfl
  | cons item more =>
    obtain ⟨x, xs, hhead, -⟩ := (hwhole item (by simp)).exists_head
    simp only [List.flatMap_cons, hhead, List.length_append, List.length_cons, List.length_nil]
      at hlength
    omega

/-- An item before the last one is white space or a reference. -/
theorem isInline (h : r.IsReferenceLine) {item last : Item}
    (hitems : Item.ofTokens (Token.ofText r) = items ++ item :: (more ++ [last])) :
    item.IsInline := by
  have hmem : item ∈ Item.ofTokens (Token.ofText r) := by rw [hitems]; simp
  have hwhole := (Item.groups_ofText r).isWhole item hmem
  have hkind {t : Token} (ht : t ∈ item.tokens) := h.kind_ne t (mem_tokens hmem ht)
  cases item with
  | header t kind => exact (hkind List.mem_cons_self).2.1 hwhole.1
  | statement keyword rest => exact (hkind List.mem_cons_self).2.2 hwhole.1
  | text t =>
    obtain ⟨hblank, hends⟩ := h.text_of_append hitems
    refine ⟨hblank, Bool.eq_false_iff.mpr fun hline => ?_⟩
    exact absurd (hends hline) (by simp)
  | reference start name target tail =>
    cases tail with
    | none | braced => rfl
    | unterminated mark recovered =>
      exact absurd hwhole.2.2.2.1 (hkind (by simp [Item.tokens, Item.Tail.tokens])).1
  | stray => exact hwhole

/-- A line of references is items within the line, one of them a reference, and the text that ends
it. -/
theorem exists_items (h : r.IsReferenceLine) :
    ∃ items t, Item.ofTokens (Token.ofText r) = items ++ [.text t] ∧
      (∀ item ∈ items, item.IsInline) ∧ (t.isBlank = true ∧ t.endsLine = true) ∧
        items.filterMap Item.reference? ≠ [] := by
  have hgroups := Item.groups_ofText r
  obtain ⟨start, hstart, hkind⟩ := h.exists_reference
  obtain ⟨found, hfound, hmem⟩ : ∃ item ∈ Item.ofTokens (Token.ofText r), start ∈ item.tokens := by
    obtain ⟨last, hlast, htokens⟩ := hgroups.exists_last
    rw [htokens] at hstart
    rcases List.mem_append.mp hstart with hmem | hmem
    · exact List.mem_flatMap.mp hmem
    · rw [List.mem_singleton.mp hmem, hlast] at hkind
      cases hkind
  rcases List.eq_nil_or_concat' (Item.ofTokens (Token.ofText r)) with hnil | ⟨init, item, hitems⟩
  · rw [hnil] at hfound
    cases hfound
  have hmemLast : item ∈ Item.ofTokens (Token.ofText r) := by rw [hitems]; simp
  obtain ⟨t, -, hline, hitem⟩ := Item.last_of_endsLine h.endsLine (fun t ht => (h.kind_ne t ht).1)
    item (by rw [hitems, List.getLast?_concat]; rfl)
  rcases hitem with rfl | ⟨keyword, rfl⟩
  · refine ⟨init, t, hitems, fun item hitem => ?_, ⟨(h.text_of_append hitems).1, hline⟩, fun hnone => ?_⟩
    · obtain ⟨items, more, rfl⟩ := List.append_of_mem hitem
      have hsplit : Item.ofTokens (Token.ofText r) = items ++ item :: (more ++ [.text t]) := by
        rw [hitems, List.append_assoc, List.cons_append]
      exact h.isInline hsplit
    · obtain ⟨name, target, tail, rfl⟩ := Item.exists_reference_of_mem (hgroups.isWhole _ hfound) hmem hkind
      rw [hitems] at hfound
      have hinit := (List.mem_append.mp hfound).resolve_right (by simp)
      cases List.filterMap_eq_nil_iff.mp hnone _ hinit
  · exact absurd (hgroups.isWhole _ hmemLast).1
      (h.kind_ne keyword (mem_tokens hmemLast List.mem_cons_self)).2.2

end Text.IsReferenceLine

namespace Outline

/-- An outline within a line that had references so far and white space around them. -/
def withinLine (o : Outline) (found : List FormReference) (space : Text) : Outline :=
  { o with
    references := o.references ++ found
    openSection := o.openSection.map fun s => { s with body := ⟨s.body.settled, space⟩ }
    lineHasReference := !found.isEmpty }

variable {o : Outline} {found : List FormReference} {space t : Text}

/-- At the start of a line nothing of the line was seen yet. -/
theorem IsAtLineStart.withinLine_nil (h : o.IsAtLineStart) : o.withinLine [] [] = o := by
  obtain ⟨sections, references, blocks, apiCalls, openSection, openBlock, lineBlank, hasReference⟩ := o
  obtain rfl : hasReference = false := h.lineHasReference
  cases openSection with
  | none => simp [withinLine]
  | some s =>
    obtain ⟨kind, settled, pending⟩ := s
    obtain rfl : pending = [] := h.pending _ rfl
    simp [withinLine]

/-- White space within the line is collected. -/
theorem IsAtLineStart.text_withinLine (h : o.IsAtLineStart) (hblank : Text.isBlank t = true)
    (hends : Text.endsLine t = false) :
    (o.withinLine found space).text t = o.withinLine found (space ++ t) := by
  have hidle : (o.withinLine found space).openBlock = none := h.openBlock
  have hline : (o.withinLine found space).lineBlank = true := h.lineBlank
  rw [text, if_neg (by simp [hends]), edit_of_idle hidle, hline, hblank, hends]
  simp [withinLine, setLine, TextBuffer.push, hends, h.lineBlank, Function.comp_def]

/-- The end of the line drops the white space that was collected. -/
theorem IsAtLineStart.text_end (h : o.IsAtLineStart) (hblank : Text.isBlank t = true)
    (hends : Text.endsLine t = true) (hfound : found ≠ []) :
    (o.withinLine found space).text t = o.withReferences (o.references ++ found) := by
  have hidle : (o.withinLine found space).openBlock = none := h.openBlock
  have hline : (o.withinLine found space).lineBlank = true := h.lineBlank
  have hmarked : (o.withinLine found space).lineHasReference = true := by simp [withinLine, hfound]
  rw [text, if_pos ⟨hline, hblank, hends⟩, if_pos hmarked, edit_of_idle hidle,
    ← h.withinLine_nil]
  simp [withinLine, withReferences, TextBuffer.dropLine, Function.comp_def]

/-- Items within the line add to the white space and to the references of the line. -/
theorem IsAtLineStart.exists_withinLine (h : o.IsAtLineStart) {items : List Item}
    (hinline : ∀ item ∈ items, item.IsInline) : ∃ more,
      (o.withinLine found space).applyAll items =
        o.withinLine (found ++ items.filterMap Item.reference?) more := by
  induction items generalizing found space with
  | nil => exact ⟨space, by rw [List.filterMap_nil, List.append_nil, applyAll_nil]⟩
  | cons item items ih =>
    obtain ⟨hitem, hitems⟩ := List.forall_mem_cons.mp hinline
    rw [applyAll_cons, Item.references_cons, ← List.append_assoc]
    cases item with
    | header | statement | stray => exact absurd hitem id
    | text t =>
      have hstep : (o.withinLine found space).apply (.text t) = o.withinLine found (space ++ t.text) :=
        h.text_withinLine hitem.1 hitem.2
      have hnone : found ++ (Item.text t).reference?.toList = found := List.append_nil found
      rw [hstep, hnone]
      exact ih hitems
    | reference start name target tail =>
      have hends : tail.endsLine = false := hitem
      have hstep : (o.withinLine found space).apply (.reference start name target tail) =
          o.withinLine (found ++ [Item.found name target tail]) space := by
        rw [apply, reference, hends]
        simp [withinLine]
      rw [hstep]
      exact ih hitems

/-- A line of references adds its references to an outline and changes nothing else. -/
theorem IsAtLineStart.read_referenceLine (h : o.IsAtLineStart) {r : Text} (hr : r.IsReferenceLine) :
    o.read (.ofText r) = o.withReferences (o.references ++ (Lexer.ofText r).references) := by
  obtain ⟨items, t, hitems, hinline, ⟨hblank, hends⟩, hfound⟩ := hr.exists_items
  have hread : o.read (.ofText r) = o.applyAll (Item.ofTokens (Token.ofText r)) := rfl
  have hreferences : (Lexer.ofText r).references =
      (Item.ofTokens (Token.ofText r)).filterMap Item.reference? := rfl
  have hlast : (items ++ [Item.text t]).filterMap Item.reference? =
      items.filterMap Item.reference? := by
    rw [List.filterMap_append]
    exact List.append_nil _
  obtain ⟨space, hspace⟩ : ∃ space, (o.withinLine [] []).applyAll items =
      o.withinLine ([] ++ items.filterMap Item.reference?) space := h.exists_withinLine hinline
  rw [h.withinLine_nil, List.nil_append] at hspace
  rw [hread, hreferences, hitems, hlast, applyAll_append, hspace]
  exact h.text_end hblank hends hfound

end Outline

/-- The references of a script are those that it leads to. -/
theorem references_ofText (source : Text) :
    (Parsed.ofText source).document.references.map Reference.lower =
      (Lexer.ofText source).references := by
  have houtline : (Parsed.ofText source).document.references.map Reference.lower =
      (Outline.empty.read (.ofText source)).close.references :=
    congrArg Outline.references (outline_ofText source)
  rw [houtline, (Outline.Extends.close _).references, Lexer.references_read]
  rfl

/-- A line of references is invisible to sections. Between lines of a script without errors, outside
the bodies of references and outside blocks, it changes neither the kinds nor the texts of the
sections; and its references come between those of the lines before it and those of the lines after
it. -/
theorem reference_line_invisible {pre r post : Text} (hpre : pre = [] ∨ Text.endsLine pre = true)
    (hclosed : ∀ t ∈ Token.ofText (pre ++ post), t.kind ≠ .error)
    (hcut : ¬Token.InBody (Token.before (.after pre) (Token.ofText (pre ++ post))))
    (hidle : State.past none
      ((Token.before (.after pre) (Token.ofText (pre ++ post))).filter Token.isBlockKeyword) = none)
    (hr : r.IsReferenceLine) :
    (Parsed.ofText (pre ++ r ++ post)).document.sectionTexts =
        (Parsed.ofText (pre ++ post)).document.sectionTexts ∧
      (Parsed.ofText (pre ++ r ++ post)).document.references.map Reference.lower =
        ((Parsed.ofText pre).document.references ++ (Parsed.ofText r).document.references ++
          (Parsed.ofText post).document.references).map Reference.lower := by
  have hpreClosed := Token.kind_ne_error_of_cut hpre hclosed hcut
  have hrClosed : ∀ t ∈ Token.ofText r, t.kind ≠ .error := fun t ht => (hr.kind_ne t ht).1
  have hblock := Draft.view_before hpre hpreClosed post
  rw [hidle, Option.map_none, Option.map_eq_none_iff] at hblock
  have hstart := Outline.isAtLineStart_read hpre hpreClosed hblock
  have hread : Outline.empty.read (.ofText (pre ++ r ++ post)) =
      ((Outline.empty.read (.ofText (pre ++ post)))).withReferences
        (((Lexer.ofText pre).references ++ (Lexer.ofText r).references) ++
          (Lexer.ofText post).references) := by
    rw [List.append_assoc, Outline.read_append _ hpre hpreClosed,
      Outline.read_append _ (Or.inr hr.endsLine) hrClosed, hstart.read_referenceLine hr,
      Lexer.references_read, Outline.read_append _ hpre hpreClosed]
    exact Outline.applyAll_withReferences _ _ _
  constructor
  · rw [sectionTexts_ofText, sectionTexts_ofText, hread, Outline.close_withReferences]
    rfl
  · rw [List.map_append, List.map_append]
    simp only [references_ofText]
    have hreferences := congrArg Outline.references hread
    rw [Lexer.references_read] at hreferences
    exact hreferences

/-- A line with an indent and two references, one of them with a body over two lines, is invisible to
the task around it. -/
theorem reference_line_invisible_task :
    (Parsed.ofText ("TASK: a\n".toList ++ " @x:\"y\"\x7bb\nc\x7d @z\n".toList ++
        "d\n".toList)).document.sectionTexts =
      (Parsed.ofText ("TASK: a\n".toList ++ "d\n".toList)).document.sectionTexts :=
  have hr : Text.IsReferenceLine " @x:\"y\"\x7bb\nc\x7d @z\n".toList :=
    ⟨by decide +kernel, by decide +kernel, by decide +kernel, by decide +kernel⟩
  (reference_line_invisible (Or.inr (by decide +kernel)) (by decide +kernel) (by decide +kernel)
    (by decide +kernel) hr).1

end PromptScript
