import PromptScript.Proofs.Parsing.Recognition

/-!
# Where the parts of a document stand

Every part of a document begins where a token of the script begins, and so does every report. Parts
of one sort stand one after another: while the script is read, what is finished and what is open
ends no later than the next token begins, so what comes next begins no earlier. An open section or
block only grows at its end.
-/

namespace PromptScript

/-- Whether a span begins at one of some places, in the part of a script between two places. -/
structure Span.LiesIn (places : List Position) (first last : Position) (s : Span) : Prop where
  /-- It begins at one of the places. -/
  start_mem : s.start ∈ places
  /-- It begins no earlier than the part. -/
  after : first ≤ s.start
  /-- It does not end before it begins. -/
  forward : s.start ≤ s.stop
  /-- It ends no later than the part. -/
  before : s.stop ≤ last

namespace Span.LiesIn

variable {places : List Position} {first last : Position} {s : Span}

/-- A part of a script between two places can only be there if they are in order. -/
theorem first_le_last (h : s.LiesIn places first last) : first ≤ last :=
  Position.le_trans h.after (Position.le_trans h.forward h.before)

/-- A span still lies in the part when it is extended to what lies after it. -/
theorem merge {t : Span} (h : s.LiesIn places first last) (hstart : s.start ≤ t.start)
    (hstop : t.stop ≤ last) : (s.merge t).LiesIn places first last := by
  have hmerge : (s.merge t).start = s.start := Span.start_merge hstart
  refine ⟨hmerge ▸ h.start_mem, hmerge ▸ h.after, ?_, Position.later_le h.before hstop⟩
  rw [hmerge]
  exact Position.le_trans h.forward (Position.le_later_left _ _)

/-- A span still lies in the part when it is extended to tokens that lie after it. -/
theorem coverTokens {ts : List Token} (h : s.LiesIn places first last)
    (hts : ∀ t ∈ ts, s.start ≤ t.place ∧ t.span.stop ≤ last) :
    (Draft.coverTokens s ts).LiesIn places first last := by
  induction ts generalizing s with
  | nil => exact h
  | cons t ts ih =>
    obtain ⟨⟨hstart, hstop⟩, hrest⟩ := List.forall_mem_cons.mp hts
    refine ih (h.merge hstart hstop) fun u hu => ?_
    rw [Span.start_merge hstart]
    exact hrest u hu

/-- A span still lies in the part when it is extended to what follows a name and a target. -/
theorem tail {d : Draft} {kind : Text} {tail : Item.Tail} (h : s.LiesIn places first last)
    (htail : ∀ t ∈ tail.tokens, s.start ≤ t.place ∧ t.span.stop ≤ last) :
    (d.tail kind s tail).2.2.LiesIn places first last := by
  cases tail with
  | none => exact h
  | braced opening inner closing => exact h.coverTokens (List.forall_mem_cons.mp htail).2
  | unterminated mark recovered => exact h.coverTokens htail

end Span.LiesIn

/-- Whether spans begin at some of some places, each ends no later than the next begins, and none
goes past a place. -/
structure Span.InRow (places : List Position) (last : Position) (spans : List Span) : Prop where
  /-- They begin at some of the places. -/
  start_mem : ∀ s ∈ spans, s.start ∈ places
  /-- None ends before it begins. -/
  forward : ∀ s ∈ spans, s.start ≤ s.stop
  /-- Each ends no later than those after it begin. -/
  ordered : spans.Pairwise fun a b => a.stop ≤ b.start
  /-- None goes past the place. -/
  before : ∀ s ∈ spans, s.stop ≤ last

namespace Span.InRow

variable {places : List Position} {first last : Position} {spans : List Span} {s : Span}

/-- No spans are in a row anywhere. -/
theorem nil : InRow places last [] :=
  ⟨by simp, by simp, .nil, by simp⟩

/-- Spans in a row up to a place are so up to a later one. -/
theorem mono (h : InRow places first spans) (hle : first ≤ last) : InRow places last spans :=
  ⟨h.start_mem, h.forward, h.ordered, fun s hs => Position.le_trans (h.before s hs) hle⟩

/-- A span that lies after a row goes to its end. -/
theorem append (h : InRow places first spans) (hs : s.LiesIn places first last) :
    InRow places last (spans ++ [s]) where
  start_mem := List.forall_mem_append.mpr ⟨h.start_mem, List.forall_mem_singleton.mpr hs.start_mem⟩
  forward := List.forall_mem_append.mpr ⟨h.forward, List.forall_mem_singleton.mpr hs.forward⟩
  ordered := by
    refine List.pairwise_append.mpr ⟨h.ordered, List.pairwise_singleton _ _, fun a ha b hb => ?_⟩
    rw [List.mem_singleton.mp hb]
    exact Position.le_trans (h.before a ha) hs.after
  before := List.forall_mem_append.mpr
    ⟨(h.mono hs.first_le_last).before, List.forall_mem_singleton.mpr hs.before⟩

/-- The last span of a row can be extended to one that lies after the row. -/
theorem extend {t : Span} (h : InRow places first (spans ++ [s]))
    (ht : t.LiesIn places first last) : InRow places last (spans ++ [s.merge t]) := by
  obtain ⟨hmem, hlast⟩ := List.forall_mem_append.mp h.start_mem
  obtain ⟨hforward, hlastForward⟩ := List.forall_mem_append.mp h.forward
  obtain ⟨hordered, -, hafter⟩ := List.pairwise_append.mp h.ordered
  obtain ⟨hbefore, hlastBefore⟩ := List.forall_mem_append.mp h.before
  rw [List.forall_mem_singleton] at hlast hlastForward hlastBefore
  have hstop := Position.le_trans hlastBefore ht.first_le_last
  have hstart : s.start ≤ t.start :=
    Position.le_trans hlastForward (Position.le_trans hlastBefore ht.after)
  have hlies : (s.merge t).LiesIn places s.start last :=
    LiesIn.merge ⟨hlast, Position.le_refl _, hlastForward, hstop⟩ hstart ht.before
  have hrow : InRow places s.start spans :=
    ⟨hmem, hforward, hordered, fun a ha => hafter a ha s (List.mem_singleton_self s)⟩
  exact hrow.append hlies

end Span.InRow

namespace Draft

/-- Where the parts of a draft stand, and its reports. -/
structure Trace where
  /-- The spans of the sections, that of the open one last. -/
  sections : List Span
  /-- The spans of the references. -/
  references : List Span
  /-- The spans of the blocks, that of the open one last. -/
  blocks : List Span
  /-- The spans of the calls. -/
  apiCalls : List Span
  /-- The reports. -/
  reports : List Diagnostic

/-- The trace of a draft. -/
def trace (d : Draft) : Trace where
  sections := d.document.sections.map (·.span) ++ d.openSection.toList.map (·.span)
  references := d.document.references.map (·.span)
  blocks := d.document.blocks.map (·.span) ++ d.openBlock.toList.map (·.span)
  apiCalls := d.document.apiCalls.map (·.span)
  reports := d.diagnostics

variable {d : Draft}

/-- What is known of the line leaves no trace. -/
theorem trace_setLine (blank hasReference : Bool) :
    (d.setLine blank hasReference).trace = d.trace :=
  rfl

/-- Text that is collected leaves no trace. -/
theorem trace_edit (change : TextBuffer → TextBuffer) : (d.edit change).trace = d.trace := by
  unfold edit
  split
  · rename_i b hblock
    have hspan : (b.edit change).span = b.span := by
      unfold OpenBlock.edit
      split <;> rfl
    simp [trace, hblock, hspan]
  · rename_i hsection
    simp [trace, hsection]
  · rfl

/-- An open section counts as it does when it is finished. -/
theorem trace_finishSection : d.finishSection.trace = d.trace := by
  unfold finishSection
  split
  · rename_i hsection
    simp [trace, hsection]
  · rfl

/-- No block is open once the unfinished one is closed. -/
theorem openBlock_closeUnfinished (d : Draft) : d.closeUnfinished.openBlock = none := by
  unfold closeUnfinished
  split
  · rfl
  · assumption

/-- A brace that lies deep in a body is one of its tokens. -/
theorem mem_of_deepBrace? {depth : Nat} {tokens : List Token} {brace : Token}
    (h : deepBrace? depth tokens = some brace) : brace ∈ tokens := by
  fun_induction deepBrace? depth tokens with
  | case1 => cases h
  | case2 depth t rest => exact Option.some.inj h ▸ List.mem_cons_self
  | case3 depth t rest _ _ ih => exact List.mem_cons_of_mem _ (ih h)
  | case4 depth t rest _ _ ih => exact List.mem_cons_of_mem _ (ih h)
  | case5 depth t rest _ _ ih => exact List.mem_cons_of_mem _ (ih h)

/-- Whether the parts of a draft and its reports begin at some of some places, those of one sort in
a row, and no part goes past a place. -/
structure Trace.IsPlaced (places : List Position) (last : Position) (t : Trace) : Prop where
  /-- The sections stand in a row. -/
  sections : Span.InRow places last t.sections
  /-- The references stand in a row. -/
  references : Span.InRow places last t.references
  /-- The blocks stand in a row. -/
  blocks : Span.InRow places last t.blocks
  /-- The calls stand in a row. -/
  apiCalls : Span.InRow places last t.apiCalls
  /-- The reports are about some of the places. -/
  reports : ∀ x ∈ t.reports, ∃ p ∈ places, x.isAt p = true

/-- Whether a draft is placed as its trace is. -/
abbrev IsPlaced (d : Draft) (places : List Position) (last : Position) : Prop :=
  d.trace.IsPlaced places last

namespace IsPlaced

variable {places : List Position} {first last : Position} {span : Span}

/-- An empty draft has no part that could be out of place. -/
theorem empty (places : List Position) (last : Position) : Draft.empty.IsPlaced places last :=
  ⟨.nil, .nil, .nil, .nil, by simp [trace, Draft.empty]⟩

/-- Drafts of the same trace are placed alike. -/
theorem of_trace {e : Draft} (h : d.IsPlaced places last) (heq : e.trace = d.trace) :
    e.IsPlaced places last := by
  rwa [IsPlaced, heq]

/-- What is placed up to a place is so up to a later one. -/
theorem mono (h : d.IsPlaced places first) (hle : first ≤ last) : d.IsPlaced places last :=
  ⟨h.sections.mono hle, h.references.mono hle, h.blocks.mono hle, h.apiCalls.mono hle, h.reports⟩

/-- A report that begins at one of the places keeps a draft placed. -/
theorem report (h : d.IsPlaced places last) (problem : Document.Problem)
    (hspan : span.start ∈ places) : (d.report problem span).IsPlaced places last where
  sections := h.sections
  references := h.references
  blocks := h.blocks
  apiCalls := h.apiCalls
  reports := List.forall_mem_append.mpr
    ⟨h.reports, List.forall_mem_singleton.mpr ⟨_, hspan, problem.isAt_diagnostic span⟩⟩

/-- Closing an unfinished block keeps a draft placed, as the block began at one of the places. -/
theorem closeUnfinished (h : d.IsPlaced places last) : d.closeUnfinished.IsPlaced places last := by
  unfold Draft.closeUnfinished
  cases hblock : d.openBlock with
  | none => exact h
  | some b =>
    have hstart : b.span.start ∈ places := h.blocks.start_mem _ (by simp [trace, hblock])
    refine (h.report .unclosedBlock hstart).of_trace ?_
    simp [trace, addBlock, Draft.report, hblock]

/-- Closing all that is open keeps a draft placed. -/
theorem closeAll (h : d.IsPlaced places last) : d.closeAll.IsPlaced places last :=
  (closeUnfinished (h.of_trace trace_finishSection)).of_trace (trace_setLine _ _)

/-- An open section is extended to a span after all that is there. -/
theorem extendSection (h : d.IsPlaced places first) (hspan : span.LiesIn places first last) :
    (d.extendSection span).IsPlaced places last := by
  cases hsection : d.openSection with
  | none =>
    refine (h.mono hspan.first_le_last).of_trace ?_
    simp [trace, Draft.extendSection, hsection]
  | some s =>
    have hrow := h.sections
    simp only [trace, hsection] at hrow
    refine ⟨?_, h.references.mono hspan.first_le_last, h.blocks.mono hspan.first_le_last,
      h.apiCalls.mono hspan.first_le_last, h.reports⟩
    simp only [trace, Draft.extendSection, hsection]
    exact hrow.extend hspan

/-- A fragment of text keeps a draft placed, up to where it ends. -/
theorem text (h : d.IsPlaced places first) {t : Token} (ht : t.span.LiesIn places first last) :
    (d.text t).IsPlaced places last := by
  have hlater := h.mono ht.first_le_last
  -- text is collected without a trace, but for a section that takes in what is not blank
  unfold Draft.text
  split
  · split
    · exact hlater.of_trace (trace_edit _)
    · split
      · rename_i b hblock
        have hedit : d.edit (·.push t.text) =
            { d with openBlock := some (b.edit (·.push t.text)) } := by
          rw [edit, hblock]
        exact hlater.of_trace (hedit ▸ trace_edit _)
      · exact hlater.of_trace trace_finishSection
  · refine of_trace ?_ ((trace_setLine _ _).trans (trace_edit _))
    split
    · exact hlater
    · exact h.extendSection ht

/-- A block is opened after all that is there, or a report is about where it would be. -/
theorem openNew (h : d.IsPlaced places first) (opening : Opening)
    (hspan : span.LiesIn places first last) (rest : Text) :
    (d.openNew opening span rest).IsPlaced places last := by
  have hlater := h.mono hspan.first_le_last
  unfold Draft.openNew
  cases hblock : d.openBlock with
  | some b => exact hlater.report .nestedBlock hspan.start_mem
  | none =>
    have hrow := h.blocks
    simp only [trace, hblock, Option.toList_none, List.map_nil, List.append_nil] at hrow
    exact ⟨hlater.sections, hlater.references, hrow.append hspan, hlater.apiCalls, hlater.reports⟩

/-- IF keeps a draft placed, up to where its line ends. -/
theorem conditional (h : d.IsPlaced places first) (hspan : span.LiesIn places first last)
    (arguments : Text) : (d.conditional span arguments).IsPlaced places last := by
  unfold Draft.conditional
  split
  · exact h.openNew _ hspan _
  · exact (h.report .malformedIf hspan.start_mem).openNew _ hspan _

/-- FOR EACH keeps a draft placed, up to where its line ends. -/
theorem forEach (h : d.IsPlaced places first) (hspan : span.LiesIn places first last)
    (arguments : Text) : (d.forEach span arguments).IsPlaced places last := by
  unfold Draft.forEach
  split
  · exact h.openNew _ hspan _
  · exact (h.report .malformedForEach hspan.start_mem).openNew _ hspan _

/-- ELSE keeps a draft placed. -/
theorem otherwise (h : d.IsPlaced places last) (hspan : span.start ∈ places) (arguments : Text) :
    (d.otherwise span arguments).IsPlaced places last := by
  unfold Draft.otherwise
  split
  · rename_i hblock
    refine h.of_trace ?_
    simp [trace, hblock]
  · exact h.report .strayElse hspan

/-- The open block ends with the keyword that ends it. -/
theorem finish (h : d.IsPlaced places first) {keyword : Span}
    (hkeyword : keyword.LiesIn places first last) (hspan : span.start ∈ places) :
    (d.finish keyword span).IsPlaced places last := by
  have hlater := h.mono hkeyword.first_le_last
  unfold Draft.finish
  cases hblock : d.openBlock with
  | none => exact hlater.report .strayEnd hspan
  | some b =>
    have hrow := h.blocks
    simp only [trace, hblock] at hrow
    refine ⟨hlater.sections, hlater.references, ?_, hlater.apiCalls, hlater.reports⟩
    simp only [trace, addBlock, List.map_append, Option.toList_none, List.map_nil, List.append_nil]
    exact hrow.extend hkeyword

/-- A call keeps a draft placed, up to where its line ends. -/
theorem callApi (h : d.IsPlaced places first) (hspan : span.LiesIn places first last)
    (arguments : Text) : (d.callApi span arguments).IsPlaced places last := by
  have hlater := h.mono hspan.first_le_last
  unfold Draft.callApi
  split
  · refine ⟨hlater.sections, hlater.references, hlater.blocks, ?_, hlater.reports⟩
    simp only [trace, List.map_append]
    exact h.apiCalls.append hspan
  · exact hlater.report _ hspan.start_mem

/-- What a statement adds takes up its line, from the keyword on. -/
theorem statement (h : d.IsPlaced places first) {keyword : Token} {rest : Option Token}
    (hkeyword : keyword.span.LiesIn places first last)
    (hrest : ∀ line ∈ rest, keyword.place ≤ line.place ∧ line.span.stop ≤ last) :
    (d.statement keyword rest).IsPlaced places last := by
  have hready : (d.finishSection.setLine true false).IsPlaced places first :=
    h.of_trace trace_finishSection
  have hlater := hready.mono hkeyword.first_le_last
  unfold Draft.statement
  extract_lets span arguments _ _
  have hspan : span.LiesIn places first last := by
    cases rest with
    | none => exact hkeyword
    | some line =>
      obtain ⟨hstart, hstop⟩ := hrest line rfl
      simp only [span]
      split
      · exact hkeyword
      · exact hkeyword.merge hstart hstop
  cases Draft.statementWords.lookup (Text.words keyword.text) with
  | none => exact hlater.report _ hspan.start_mem
  | some word =>
    cases word with
    | conditional => exact hready.conditional hspan _
    | forEach => exact hready.forEach hspan _
    | onError => exact hready.openNew _ hspan _
    | otherwise => exact hlater.otherwise hspan.start_mem _
    | finish => exact hready.finish hkeyword hspan.start_mem
    | callApi => exact hready.callApi hspan _

/-- What follows a name and a target adds reports alone. -/
theorem tail (h : d.IsPlaced places last) {tail : Item.Tail}
    (htail : ∀ t ∈ tail.tokens, t.place ∈ places) (kind : Text) :
    (d.tail kind span tail).1.IsPlaced places last := by
  cases tail with
  | none => exact h
  | braced opening inner closing =>
    simp only [Draft.tail]
    cases hbrace : deepBrace? 1 inner with
    | none => exact h
    | some brace =>
      refine h.report _ (htail brace ?_)
      simp [Item.Tail.tokens, mem_of_deepBrace? hbrace]
  | unterminated mark recovered =>
    have hmark : mark.span.start ∈ places := htail mark List.mem_cons_self
    have hreport := h.report (if mark.text = ['"'] then .unterminatedTarget kind
      else .unterminatedBody kind) hmark
    simp only [Draft.tail]
    split
    · split
      · exact hreport.of_trace ((trace_setLine _ _).trans (trace_edit _))
      · exact hreport.of_trace (trace_setLine _ _)
    · exact hreport

/-- A reference that begins after all others keeps a draft placed. -/
theorem addReference (h : d.IsPlaced places first) {r : Reference}
    (hr : r.span.LiesIn places first last) :
    IsPlaced { d with document := { d.document with references := d.document.references ++ [r] } }
      places last := by
  have hlater := h.mono hr.first_le_last
  refine ⟨hlater.sections, ?_, hlater.blocks, hlater.apiCalls, hlater.reports⟩
  simp only [trace, List.map_append]
  exact h.references.append hr

/-- A reference stands after all that is there. -/
theorem reference (h : d.IsPlaced places first) {start : Token} {name target : Option Token}
    {tail : Item.Tail} (hstart : start.span.LiesIn places first last)
    (hrest : ∀ t ∈ name.toList ++ (target.toList ++ tail.tokens),
      start.place ≤ t.place ∧ t.place ∈ places ∧ t.span.stop ≤ last) :
    (d.reference start name target tail).IsPlaced places last := by
  rw [← List.append_assoc] at hrest
  obtain ⟨hnamed, htail⟩ := List.forall_mem_append.mp hrest
  have hspan : (coverTokens start.span (name.toList ++ target.toList)).LiesIn places first last :=
    hstart.coverTokens fun t ht => ⟨(hnamed t ht).1, (hnamed t ht).2.2⟩
  have hfrom : (coverTokens start.span (name.toList ++ target.toList)).start = start.place :=
    Item.start_coverTokens fun t ht => (hnamed t ht).1
  have hready : IsPlaced { d with lineHasReference := true } places first := h
  exact (hready.tail (fun t ht => (htail t ht).2.1) _).addReference
    (hspan.tail fun t ht => ⟨hfrom ▸ (htail t ht).1, (htail t ht).2.2⟩)

/-- A section is opened after all that is there. -/
theorem header (h : d.IsPlaced places first) {t : Token} (ht : t.span.LiesIn places first last)
    (kind : SectionKind) : (d.apply (.header t kind)).IsPlaced places last := by
  have hclosed := h.closeAll
  have hlater := hclosed.mono ht.first_le_last
  have hrow := hclosed.sections
  simp only [trace, openSection_closeAll, Option.toList_none, List.map_nil, List.append_nil] at hrow
  exact ⟨hrow.append ht, hlater.references, hlater.blocks, hlater.apiCalls, hlater.reports⟩

/-- An item of a script stands after all that is there, up to the end of its tokens. -/
theorem apply (h : d.IsPlaced places first) {item : Item} (hitem : item.IsWhole)
    (htokens : ∀ t ∈ item.tokens, t.span.LiesIn places first last)
    (horder : item.tokens.Pairwise fun a b => a.place ≤ b.place) :
    (d.apply item).IsPlaced places last := by
  cases item with
  | header t kind => exact h.header (htokens t (List.mem_singleton_self t)) kind
  | statement keyword rest =>
    obtain ⟨hkeyword, hrest⟩ := List.forall_mem_cons.mp htokens
    have hafter := (List.pairwise_cons.mp horder).1
    refine h.statement hkeyword fun line hline => ?_
    have hmem : line ∈ rest.toList := by simpa using hline
    exact ⟨hafter line hmem, (hrest line hmem).before⟩
  | text t => exact h.text (htokens t (List.mem_singleton_self t))
  | reference start name target tail =>
    obtain ⟨hstart, hrest⟩ := List.forall_mem_cons.mp htokens
    have hafter := (List.pairwise_cons.mp horder).1
    exact h.reference hstart fun t ht =>
      ⟨hafter t ht, (hrest t ht).start_mem, (hrest t ht).before⟩
  | stray => exact absurd hitem id

/-- The items of a script stand one after another, each up to the token that comes next. -/
theorem applyAll {items : List Item} {tokens : List Token} (h : Item.Groups items tokens)
    (hplaces : ∀ t ∈ tokens, t.place ∈ places)
    (horder : tokens.Pairwise fun a b => a.span.stop ≤ b.place)
    (hd : ∀ t ∈ tokens, d.IsPlaced places t.place) :
    ∃ stop, (d.applyAll items).IsPlaced places stop := by
  induction h generalizing d with
  | @eof last => exact ⟨last.place, hd last (List.mem_singleton_self last)⟩
  | @cons item items rest hitem _ _ ih =>
    obtain ⟨hitemPlaces, hrestPlaces⟩ := List.forall_mem_append.mp hplaces
    obtain ⟨hitemOrder, hrestOrder, hbefore⟩ := List.pairwise_append.mp horder
    have hinside : item.tokens.Pairwise fun a b => a.place ≤ b.place :=
      hitemOrder.imp fun hle => Position.le_trans (Position.le_advance _ _) hle
    obtain ⟨lead, more, hlead, -, -⟩ := hitem.exists_head
    have hfrom : ∀ t ∈ item.tokens, lead.place ≤ t.place := by
      rw [hlead] at hinside ⊢
      exact List.forall_mem_cons.mpr ⟨Position.le_refl _, (List.pairwise_cons.mp hinside).1⟩
    have hfirst : d.IsPlaced places lead.place := hd lead (by simp [hlead])
    refine ih hrestPlaces hrestOrder fun next hnext => hfirst.apply hitem (fun t ht => ?_) hinside
    exact ⟨hitemPlaces t ht, hfrom t ht, Position.le_advance _ _, hbefore t ht next hnext⟩

end IsPlaced

/-- Nothing is open at the end of a script. -/
theorem trace_close : d.close.trace =
    ⟨d.close.document.sections.map (·.span), d.close.document.references.map (·.span),
      d.close.document.blocks.map (·.span), d.close.document.apiCalls.map (·.span),
      d.close.diagnostics⟩ := by
  have hblock : d.close.openBlock = none := openBlock_closeUnfinished d.finishSection
  simp [trace, openSection_close, hblock]

end Draft

/-- The parts of a script and its reports are placed at its tokens. -/
theorem Parsed.exists_isPlaced_ofText (source : Text) :
    ∃ stop, Draft.Trace.IsPlaced ((Token.ofText source).map (·.place)) stop
      ⟨(ofText source).document.sections.map (·.span),
        (ofText source).document.references.map (·.span),
        (ofText source).document.blocks.map (·.span),
        (ofText source).document.apiCalls.map (·.span), (ofText source).diagnostics⟩ := by
  obtain ⟨stop, hstop⟩ := Draft.IsPlaced.applyAll (Item.groups_ofText source)
    (fun t ht => List.mem_map_of_mem ht) (Token.pairwise_span_ofText source)
    fun t _ => Draft.IsPlaced.empty _ t.place
  have hclosed := (hstop.of_trace Draft.trace_finishSection).closeUnfinished
  exact ⟨stop, Draft.trace_close ▸ hclosed⟩

/-- The parts of a document of one sort begin where tokens of the script do, none ends before it
begins, and each ends no later than the next begins. Each report is about the place of a token. -/
theorem spans_anchored (source : Text) :
    (∀ spans ∈ [(Parsed.ofText source).document.sections.map (·.span),
        (Parsed.ofText source).document.references.map (·.span),
        (Parsed.ofText source).document.blocks.map (·.span),
        (Parsed.ofText source).document.apiCalls.map (·.span)],
      (∀ s ∈ spans, (∃ t ∈ Token.ofText source, s.start = t.place) ∧ s.start ≤ s.stop) ∧
        spans.Pairwise fun a b => a.stop ≤ b.start) ∧
      ∀ x ∈ (Parsed.ofText source).diagnostics, ∃ t ∈ Token.ofText source,
        x.line = some t.place.line ∧ x.column = some t.place.column := by
  obtain ⟨stop, hplaced⟩ := Parsed.exists_isPlaced_ofText source
  have hrow {spans : List Span}
      (h : Span.InRow ((Token.ofText source).map (·.place)) stop spans) :
      (∀ s ∈ spans, (∃ t ∈ Token.ofText source, s.start = t.place) ∧ s.start ≤ s.stop) ∧
        spans.Pairwise fun a b => a.stop ≤ b.start := by
    refine ⟨fun s hs => ⟨?_, h.forward s hs⟩, h.ordered⟩
    obtain ⟨t, ht, hplace⟩ := List.mem_map.mp (h.start_mem s hs)
    exact ⟨t, ht, hplace.symm⟩
  refine ⟨?_, fun x hx => ?_⟩
  · simp only [List.forall_mem_cons, List.not_mem_nil, false_implies, implies_true, and_true]
    exact ⟨hrow hplaced.sections, hrow hplaced.references, hrow hplaced.blocks,
      hrow hplaced.apiCalls⟩
  · obtain ⟨p, hp, hat⟩ := hplaced.reports x hx
    obtain ⟨t, ht, rfl⟩ := List.mem_map.mp hp
    simp only [Diagnostic.isAt, Bool.and_eq_true, beq_iff_eq] at hat
    exact ⟨t, ht, hat⟩

end PromptScript
