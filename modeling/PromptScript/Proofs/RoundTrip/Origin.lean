import PromptScript.Proofs.Parsing.Texts
import PromptScript.Proofs.RoundTrip.Form

/-!
# Where forms come from

The form of a script is always one that a script can say: its sections are trimmed and have no
blank lines, its conditions and calls are stated by lines, and its references have names that the
lexer takes whole and targets that fit in quotes. Each item of a script keeps the outline so.
-/

namespace PromptScript

namespace Text

/-- The rest of a line is a line when trimmed. -/
theorem not_mem_trim {t : Text} (h : '\n' ∉ t.dropLast) : '\n' ∉ trim t := by
  cases hlast : t.getLast? with
  | none =>
    rw [List.getLast?_eq_none_iff.mp hlast]
    decide
  | some c =>
    obtain ⟨w, rfl⟩ := List.getLast?_eq_some_iff.mp hlast
    rw [List.dropLast_concat] at h
    by_cases hspace : isSpace c = true
    · rw [trim_append (by simp [isBlank, hspace])]
      exact fun hmem => h (mem_of_mem_trim hmem)
    · intro hmem
      rcases List.mem_append.mp (mem_of_mem_trim hmem) with hmem | hmem
      · exact h hmem
      · rw [← List.mem_singleton.mp hmem] at hspace
        exact hspace rfl

/-- The parts of a line around a word are lines, and they are trimmed. -/
theorem parts_of_splitWord? {word t a b : Text} (ht : '\n' ∉ t) (h : splitWord? word t = some (a, b)) :
    ('\n' ∉ a ∧ trim a = a) ∧ '\n' ∉ b ∧ trim b = b := by
  obtain ⟨parts, hparts, heq⟩ := Option.map_eq_some_iff.mp h
  cases heq
  have hjoin := splitWordFrom?_eq_some hparts
  rw [hjoin] at ht
  simp only [List.mem_append, not_or] at ht
  exact ⟨⟨fun hmem => ht.1.1 (mem_of_mem_trim hmem), trim_trim _⟩,
    fun hmem => ht.2 (mem_of_mem_trim hmem), trim_trim _⟩

end Text

/-- Text collected in a section: a blank start, lines that are not blank, and the current line. If
the current line is known to have ink or to be a header's, it has ink or comes first. -/
structure TextBuffer.IsInked (blank : Bool) (b : TextBuffer) : Prop where
  /-- The current line is a line. -/
  pending : '\n' ∉ b.pending
  /-- The text before it is white space and lines that are not blank. -/
  settled : ∃ lead ls, Text.isBlank lead = true ∧ (∀ l ∈ ls, '\n' ∉ l ∧ Text.isBlank l = false) ∧
    b.settled = lead ++ Text.unlines ls
  /-- The current line has ink or is the first one. -/
  current : blank = false → Text.isBlank b.settled = true ∨ Text.isBlank b.pending = false

namespace TextBuffer.IsInked

variable {b : TextBuffer} {blank : Bool} {t : Text}

/-- Where nothing was collected, no line is blank. -/
theorem empty : TextBuffer.empty.IsInked blank :=
  ⟨by simp [TextBuffer.empty], ⟨[], [], rfl, by simp, rfl⟩, fun _ => Or.inl rfl⟩

/-- Whatever the first line may be, it may be blank as well. -/
theorem weaken (h : b.IsInked blank) : b.IsInked true :=
  ⟨h.pending, h.settled, fun hblank => by cases hblank⟩

/-- Dropping the current line leaves the lines before it. -/
theorem dropLine (h : b.IsInked blank) : b.dropLine.IsInked true :=
  ⟨by simp [TextBuffer.dropLine], h.settled, fun hblank => by cases hblank⟩

/-- Text is added to a section unless it makes a blank line. -/
theorem push (h : b.IsInked blank) (ht : '\n' ∉ t.dropLast)
    (hline : ¬(blank = true ∧ Text.isBlank t = true ∧ Text.endsLine t = true)) :
    (b.push t).IsInked (Text.endsLine t || (blank && Text.isBlank t)) := by
  obtain ⟨lead, ls, hlead, hls, hsettled⟩ := h.settled
  rw [TextBuffer.push]
  split
  · rename_i hends
    rw [hends, Bool.true_or]
    refine ⟨by simp, ?_, fun hblank => by cases hblank⟩
    have hlast : t.getLast? = some '\n' := by simpa [Text.endsLine] using hends
    obtain ⟨w, rfl⟩ := List.getLast?_eq_some_iff.mp hlast
    rw [List.dropLast_concat] at ht
    rw [Text.isBlank_append] at hline
    by_cases hink : Text.isBlank (b.pending ++ w) = true
    · rw [Text.isBlank_append, Bool.and_eq_true] at hink
      have hfirst : blank = false := by
        cases hblank : blank with
        | false => rfl
        | true => exact absurd ⟨hblank, by rw [hink.2]; rfl, hends⟩ hline
      rcases h.current hfirst with hcurrent | hcurrent
      · refine ⟨b.settled ++ b.pending ++ (w ++ ['\n']), [], ?_, by simp, ?_⟩
        · simp only [Text.isBlank_append, hcurrent, hink]
          rfl
        · simp [TextBuffer.text]
      · rw [hink.1] at hcurrent
        cases hcurrent
    · refine ⟨lead, ls ++ [b.pending ++ w], hlead, ?_, ?_⟩
      · intro l hl
        rcases List.mem_append.mp hl with hl | hl
        · exact hls l hl
        · rw [List.mem_singleton.mp hl]
          exact ⟨by simp [h.pending, ht], by simpa using hink⟩
      · simp [TextBuffer.text, hsettled]
  · rename_i hends
    have hends' : Text.endsLine t = false := by simpa using hends
    have hno : '\n' ∉ t := by
      rcases List.eq_nil_or_concat t with rfl | ⟨w, c, rfl⟩
      · simp
      · rw [List.concat_eq_append] at *
        rw [List.dropLast_concat] at ht
        have hc : c ≠ '\n' := by simpa [Text.endsLine] using hends
        simp [ht, hc.symm]
    refine ⟨by simp [h.pending, hno], ⟨lead, ls, hlead, hls, hsettled⟩, fun hflag => ?_⟩
    rw [hends', Bool.false_or, Bool.and_eq_false_iff] at hflag
    rw [Text.isBlank_append]
    rcases hflag with hblank | hink
    · exact (h.current hblank).imp id fun hpending => by rw [hpending]; rfl
    · exact Or.inr (by rw [hink, Bool.and_false])

/-- The collected text is trimmed and has no blank line. -/
theorem finish (h : b.IsInked blank) :
    Text.trim b.finish = b.finish ∧ ∀ l ∈ Text.lines b.finish, Text.isBlank l = false := by
  obtain ⟨lead, ls, hlead, hls, hsettled⟩ := h.settled
  refine ⟨Text.trim_trim _, ?_⟩
  rw [TextBuffer.finish, TextBuffer.text, hsettled]
  exact Text.isBlank_lines_trim hlead hls h.pending

end TextBuffer.IsInked

/-- What a script can say of the statement that opens a block. -/
def Opening.IsWellFormed : Opening → Prop
  | conditional condition => ∃ t, '\n' ∉ t ∧ condition = .ofText t
  | forEach item collection =>
    ('\n' ∉ item ∧ Text.trim item = item) ∧ ('\n' ∉ collection ∧ Text.trim collection = collection)
  | onError => True

/-- ON ERROR takes no arguments. -/
theorem Opening.onError_isWellFormed : onError.IsWellFormed :=
  trivial

/-- A condition that is stated on one line is one that a script can say. -/
theorem Opening.conditional_isWellFormed {t : Text} (h : '\n' ∉ t) :
    (conditional (.ofText t)).IsWellFormed :=
  ⟨t, h, rfl⟩

/-- A finished text is trimmed. -/
theorem TextBuffer.trim_finish (b : TextBuffer) : Text.trim b.finish = b.finish :=
  Text.trim_trim _

/-- A block is one that a script can say if its opening is. -/
theorem BlockOutline.block_isWellFormed {b : BlockOutline} (h : b.opening.IsWellFormed) :
    b.block.IsWellFormed := by
  obtain ⟨opening, body, otherwise⟩ := b
  cases opening with
  | conditional condition =>
    refine ⟨h, body.trim_finish, ?_⟩
    cases otherwise with
    | none => rfl
    | some other => exact other.trim_finish
  | forEach item collection => exact ⟨h.1, h.2, body.trim_finish⟩
  | onError => exact body.trim_finish

/-- Text that is added to a block leaves its opening. -/
theorem BlockOutline.opening_edit (b : BlockOutline) (change : TextBuffer → TextBuffer) :
    (b.edit change).opening = b.opening := by
  unfold BlockOutline.edit
  split <;> rfl

/-- The arguments of a repetition are lines. -/
theorem Draft.repetition?_lines {arguments item collection body : Text} (hline : '\n' ∉ arguments)
    (h : repetition? arguments = some (item, collection, body)) :
    (Opening.forEach item collection).IsWellFormed := by
  rw [repetition?] at h
  cases hin : Text.splitWord? "IN".toList arguments with
  | none =>
    rw [hin] at h
    cases h
  | some first =>
    obtain ⟨x, rest⟩ := first
    obtain ⟨hx, hrest, -⟩ := Text.parts_of_splitWord? hline hin
    simp only [hin, Option.bind_eq_bind, Option.bind_some] at h
    cases hdo : Text.splitWord? "DO".toList rest with
    | none =>
      rw [hdo] at h
      cases h
    | some second =>
      obtain ⟨y, more⟩ := second
      obtain ⟨hy, -⟩ := Text.parts_of_splitWord? hrest hdo
      simp only [hdo, Option.bind_some] at h
      split at h
      · cases h
      · cases h
        exact ⟨hx, hy⟩

/-- Whether an outline is one that a script leads to. -/
structure Outline.IsSound (o : Outline) : Prop where
  /-- The texts of sections are trimmed and have no blank line. -/
  sections : ∀ s ∈ o.sections, Text.trim s.2 = s.2 ∧ ∀ l ∈ Text.lines s.2, Text.isBlank l = false
  /-- The references are what a script can say. -/
  references : ∀ r ∈ o.references, r.IsWellFormed
  /-- The blocks are what a script can say. -/
  blocks : ∀ b ∈ o.blocks, b.IsWellFormed
  /-- The calls are stated by texts and take up one line. -/
  apiCalls : ∀ call ∈ o.apiCalls, ∃ t, ApiCall.ofText t = .ok call ∧ '\n' ∉ call.arguments
  /-- The open section has no blank line after its first. -/
  openSection : ∀ s ∈ o.openSection, s.body.IsInked o.lineBlank
  /-- The open block is what a script can say, and no section is open in it. -/
  openBlock : ∀ b ∈ o.openBlock, b.opening.IsWellFormed ∧ o.openSection = none

namespace Outline.IsSound

variable {o : Outline}

/-- An outline at the start of a script is sound. -/
theorem empty : Outline.empty.IsSound := by
  constructor <;> intro x hx <;> cases hx

/-- An outline stays sound when a section ends, as the lines of the section are inked. -/
theorem finishSection (h : o.IsSound) : o.finishSection.IsSound := by
  unfold Outline.finishSection
  cases hs : o.openSection with
  | none => exact h
  | some s =>
    have hfinish := (h.openSection s hs).finish
    refine ⟨fun x hx => ?_, h.references, h.blocks, h.apiCalls, fun x hx => (by cases hx), ?_⟩
    · rcases List.mem_append.mp hx with hx | hx
      · exact h.sections x hx
      · rw [List.mem_singleton.mp hx]
        exact hfinish
    · exact fun b hb => ⟨(h.openBlock b hb).1, rfl⟩

/-- An outline stays sound when a block ends, as its texts are trimmed then. -/
theorem finishBlock (h : o.IsSound) : o.finishBlock.IsSound := by
  unfold Outline.finishBlock
  cases hb : o.openBlock with
  | none => exact h
  | some b =>
    have hblock := BlockOutline.block_isWellFormed (h.openBlock b hb).1
    refine ⟨h.sections, h.references, fun x hx => ?_, h.apiCalls, h.openSection,
      fun x hx => by cases hx⟩
    rcases List.mem_append.mp hx with hx | hx
    · exact h.blocks x hx
    · rw [List.mem_singleton.mp hx]
      exact hblock

/-- An outline stays sound when all that is open ends. -/
theorem close (h : o.IsSound) : o.close.IsSound :=
  h.finishSection.finishBlock

/-- No section is open once the open one has ended. -/
theorem openSection_finishSection (o : Outline) : o.finishSection.openSection = none := by
  unfold Outline.finishSection
  cases hs : o.openSection with
  | none => exact hs
  | some s => rfl

/-- No block is open once all is closed. -/
theorem openBlock_close (o : Outline) : o.close.openBlock = none := by
  unfold Outline.close Outline.finishBlock
  cases hb : o.finishSection.openBlock with
  | none => exact hb
  | some b => rfl

/-- A header keeps an outline sound. -/
theorem header (h : o.IsSound) (kind : SectionKind) : (o.header kind).IsSound := by
  refine ⟨h.close.sections, h.close.references, h.close.blocks, h.close.apiCalls, fun s hs => ?_,
    fun b hb => ?_⟩
  · cases hs
    exact .empty
  · have hnone : o.close.openBlock = some b := hb
    rw [openBlock_close] at hnone
    cases hnone

/-- What is known of the current line may change where no section is open. -/
theorem setLine (h : o.IsSound) (hsection : o.openSection = none) (blank hasReference : Bool) :
    (o.setLine blank hasReference).IsSound := by
  refine ⟨h.sections, h.references, h.blocks, h.apiCalls, fun s hs => ?_, h.openBlock⟩
  have hsome : o.openSection = some s := hs
  rw [hsection] at hsome
  cases hsome

/-- Changing the collected text keeps an outline sound if it keeps the text of a section so. -/
theorem edit (h : o.IsSound) {change : TextBuffer → TextBuffer} {blank : Bool}
    (hchange : ∀ b : TextBuffer, b.IsInked o.lineBlank → (change b).IsInked blank)
    (hasReference : Bool) : ((o.edit change).setLine blank hasReference).IsSound := by
  unfold Outline.edit
  cases hb : o.openBlock with
  | some b =>
    obtain ⟨hopening, hsection⟩ := h.openBlock b hb
    have hedited : { o with openBlock := some (b.edit change) }.IsSound := by
      refine ⟨h.sections, h.references, h.blocks, h.apiCalls, h.openSection, fun x hx => ?_⟩
      cases hx
      exact ⟨by rwa [BlockOutline.opening_edit], hsection⟩
    exact hedited.setLine hsection blank hasReference
  | none =>
    cases hs : o.openSection with
    | none => exact h.setLine hs blank hasReference
    | some s =>
      refine ⟨h.sections, h.references, h.blocks, h.apiCalls, fun x hx => ?_, fun x hx => ?_⟩
      · cases hx
        exact hchange s.body (h.openSection s hs)
      · cases hx

/-- Text that breaks no line before its end keeps an outline sound. -/
theorem text (h : o.IsSound) {t : Text} (ht : '\n' ∉ t.dropLast) : (o.text t).IsSound := by
  unfold Outline.text
  split
  · rename_i hline
    split
    · have hdrop : ((o.edit .dropLine).setLine o.lineBlank false).IsSound :=
        h.edit (fun b hb => by rw [hline.1]; exact hb.dropLine) false
      have hblank : (o.edit .dropLine).lineBlank = o.lineBlank := by
        unfold Outline.edit
        split <;> rfl
      rw [Outline.setLine, ← hblank] at hdrop
      exact hdrop
    · cases hb : o.openBlock with
      | none => exact h.finishSection
      | some b =>
        obtain ⟨hopening, hsection⟩ := h.openBlock b hb
        refine ⟨h.sections, h.references, h.blocks, h.apiCalls, h.openSection, fun x hx => ?_⟩
        cases hx
        exact ⟨by rwa [BlockOutline.opening_edit], hsection⟩
  · rename_i hline
    exact h.edit (fun b hb => hb.push ht hline) _

/-- A reference that a script can say keeps an outline sound. -/
theorem reference (h : o.IsSound) {found : FormReference} (hfound : found.IsWellFormed)
    (endsLine : Bool) : (o.reference found endsLine).IsSound := by
  have hmarked : { o with lineHasReference := true }.IsSound :=
    ⟨h.sections, h.references, h.blocks, h.apiCalls, h.openSection, h.openBlock⟩
  have hadd {m : Outline} (hm : m.IsSound) :
      { m with references := o.references ++ [found] }.IsSound := by
    refine ⟨hm.sections, fun r hr => ?_, hm.blocks, hm.apiCalls, hm.openSection, hm.openBlock⟩
    rcases List.mem_append.mp hr with hr | hr
    · exact h.references r hr
    · rw [List.mem_singleton.mp hr]
      exact hfound
  have hstill {m : Outline} (hm : m.IsSound) : (m.setLine true false).IsSound :=
    ⟨hm.sections, hm.references, hm.blocks, hm.apiCalls,
      fun s hs => (hm.openSection s hs).weaken, hm.openBlock⟩
  unfold Outline.reference
  refine hadd ?_
  split
  · split
    · exact hmarked.edit (fun b hb => hb.dropLine) false
    · exact hstill hmarked
  · exact hmarked

/-- Opening a block keeps an outline sound where no section is open. -/
theorem openNew (h : o.IsSound) (hsection : o.openSection = none) {opening : Opening}
    (hopening : opening.IsWellFormed) (rest : Text) : (o.openNew opening rest).IsSound := by
  unfold Outline.openNew
  split
  · exact h
  · refine ⟨h.sections, h.references, h.blocks, h.apiCalls, h.openSection, fun b hb => ?_⟩
    cases hb
    exact ⟨hopening, hsection⟩

/-- IF keeps an outline sound. -/
theorem conditional (h : o.IsSound) (hsection : o.openSection = none) {arguments : Text}
    (hline : '\n' ∉ arguments) : (o.conditional arguments).IsSound := by
  unfold Outline.conditional
  split
  · rename_i c condition rest hsplit
    have hcondition := (Text.parts_of_splitWord? hline hsplit).1.1
    exact h.openNew hsection (Opening.conditional_isWellFormed hcondition) rest
  · exact h.openNew hsection (Opening.conditional_isWellFormed hline) []

/-- FOR EACH keeps an outline sound, as its arguments are trimmed and on one line. -/
theorem forEach (h : o.IsSound) (hsection : o.openSection = none) {arguments : Text}
    (hline : '\n' ∉ arguments) (htrim : Text.trim arguments = arguments) :
    (o.forEach arguments).IsSound := by
  unfold Outline.forEach
  split
  · rename_i item collection body hsplit
    exact h.openNew hsection (Draft.repetition?_lines hline hsplit) body
  · refine h.openNew hsection ?_ []
    cases hin : Text.splitWord? "IN".toList arguments with
    | none => exact ⟨⟨hline, htrim⟩, by simp, rfl⟩
    | some parts => exact Text.parts_of_splitWord? hline hin

/-- ELSE keeps an outline sound. -/
theorem otherwise (h : o.IsSound) (arguments : Text) : (o.otherwise arguments).IsSound := by
  unfold Outline.otherwise
  split
  · rename_i condition body hb
    refine ⟨h.sections, h.references, h.blocks, h.apiCalls, h.openSection, fun b hx => ?_⟩
    cases hx
    exact ⟨(h.openBlock _ hb).1, (h.openBlock _ hb).2⟩
  · exact h

/-- A call keeps an outline sound, as its arguments are on one line. -/
theorem callApi (h : o.IsSound) {arguments : Text} (hline : '\n' ∉ arguments) :
    (o.callApi arguments).IsSound := by
  unfold Outline.callApi
  split
  · rename_i call hcall
    refine ⟨h.sections, h.references, h.blocks, fun x hx => ?_, h.openSection, h.openBlock⟩
    rcases List.mem_append.mp hx with hx | hx
    · exact h.apiCalls x hx
    · rw [List.mem_singleton.mp hx]
      exact ⟨arguments, hcall, ApiCall.not_mem_arguments hcall hline⟩
  · exact h

/-- A statement keeps an outline sound, as the rest of its line is one line. -/
theorem statement (h : o.IsSound) (keyword : Text) {rest : Option Text}
    (hrest : ∀ t ∈ rest, '\n' ∉ t.dropLast) : (o.statement keyword rest).IsSound := by
  have hsection : (o.finishSection.setLine true false).openSection = none :=
    openSection_finishSection o
  have hready := h.finishSection.setLine (openSection_finishSection o) true false
  have harguments : '\n' ∉ (rest.map Text.trim).getD [] ∧
      Text.trim ((rest.map Text.trim).getD []) = (rest.map Text.trim).getD [] := by
    cases rest with
    | none => exact ⟨by simp, rfl⟩
    | some t => exact ⟨Text.not_mem_trim (hrest t rfl), Text.trim_trim t⟩
  unfold Outline.statement
  split
  · rename_i word _
    cases word with
    | conditional => exact hready.conditional hsection harguments.1
    | forEach => exact hready.forEach hsection harguments.1 harguments.2
    | onError => exact hready.openNew hsection Opening.onError_isWellFormed _
    | otherwise => exact hready.otherwise _
    | finish => exact hready.finishBlock
    | callApi => exact hready.callApi harguments.1
  · exact hready

end Outline.IsSound

/-- The reference of an item is what a script can say. -/
theorem Item.found_isWellFormed {name target : Option Token} (tail : Tail)
    (hname : ∀ t ∈ name, Token.Kind.identifier.Holds t.text)
    (htarget : ∀ t ∈ target, Token.Kind.target.Holds t.text) :
    (found name target tail).IsWellFormed := by
  have hnamed : ((name.map (·.text)).getD []).all Text.isName = true := by
    cases name with
    | none => rfl
    | some t => exact hname t rfl
  have hquoted : ∀ t ∈ target.map fun t => Text.trimChar '"' t.text, '"' ∉ t ∧ '\n' ∉ t := by
    intro t ht
    obtain ⟨x, hx, rfl⟩ := Option.map_eq_some_iff.mp ht
    obtain ⟨q, hq, hquote, hline⟩ := htarget x hx
    rw [hq, Text.trimChar_quoted hquote]
    exact ⟨hquote, hline⟩
  have hkind : (found name target tail).kind =
      if target.isSome then Text.trimEndChar ':' ((name.map (·.text)).getD [])
      else (name.map (·.text)).getD [] := rfl
  refine ⟨?_, fun hsome => ?_, fun t ht => (hquoted t ht).1, fun t ht => (hquoted t ht).2,
    Text.trim_trim _, rfl⟩
  · rw [hkind]
    split
    · exact List.all_eq_true.mpr fun c hc =>
        List.all_eq_true.mp hnamed c (Text.mem_of_mem_trimEndChar hc)
    · exact hnamed
  · have htarget : target.isSome = true := by
      rw [← hsome]
      exact (Option.isSome_map ..).symm
    rw [hkind, if_pos htarget]
    exact Text.getLast?_trimEndChar _ _

namespace Outline.IsSound

variable {o : Outline}

/-- Every item keeps an outline sound. -/
theorem apply (h : o.IsSound) {item : Item} (hitem : item.AllHold) : (o.apply item).IsSound := by
  cases item with
  | header t kind => exact h.header kind
  | statement keyword rest =>
    refine h.statement keyword.text fun t ht => ?_
    obtain ⟨x, hx, rfl⟩ := Option.map_eq_some_iff.mp ht
    exact hitem x hx
  | text t => exact h.text hitem
  | reference start name target tail =>
    exact h.reference (Item.found_isWellFormed tail hitem.1 hitem.2) tail.endsLine
  | stray => exact h

/-- Items whose texts are what their kinds hold keep an outline sound. -/
theorem applyAll (h : o.IsSound) {items : List Item} (hitems : ∀ item ∈ items, item.AllHold) :
    (o.applyAll items).IsSound := by
  induction items generalizing o with
  | nil => exact h
  | cons item items ih =>
    exact ih (h.apply (hitems item List.mem_cons_self)) fun i hi =>
      hitems i (List.mem_cons_of_mem item hi)

/-- The form of a sound outline is what a script can say. -/
theorem form (h : o.IsSound) : o.form.IsWellFormed := by
  have hsection (kind : SectionKind) :
      Text.trim (((o.sections.find? (·.1 == kind)).map (·.2)).getD []) =
          ((o.sections.find? (·.1 == kind)).map (·.2)).getD [] ∧
        ∀ l ∈ Text.lines (((o.sections.find? (·.1 == kind)).map (·.2)).getD []),
          Text.isBlank l = false := by
    cases hfind : o.sections.find? (·.1 == kind) with
    | none => exact ⟨rfl, by simp [Text.lines]⟩
    | some s => exact h.sections s (List.mem_of_find?_eq_some hfind)
  have htext (kind : SectionKind) : o.form.textOf kind =
      ((o.sections.find? (·.1 == kind)).map (·.2)).getD [] := by
    cases kind <;> rfl
  refine ⟨rfl, rfl, fun kind => ?_, fun kind => ?_, h.blocks, h.apiCalls, h.references⟩
  · rw [htext]
    exact (hsection kind).1
  · rw [htext]
    exact (hsection kind).2

end Outline.IsSound

/-- The form of a script is one that a script can say. -/
theorem Form.isWellFormed_ofText (source : Text) (registry : Option Registry) :
    (Compiled.ofText source registry).form.IsWellFormed := by
  have hform : (Compiled.ofText source registry).form = _ := lower_ofText source
  have hitems := Item.allHold_ofTokens (Token.holds_ofText source)
  rw [hform]
  exact (Outline.IsSound.empty.applyAll hitems).close.form

end PromptScript
