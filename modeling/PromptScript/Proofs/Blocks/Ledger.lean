import Mathlib.Data.List.Forall2
import PromptScript.Proofs.Blocks.Automaton
import PromptScript.Proofs.Parsing.Recognition
import PromptScript.Proofs.RoundTrip.Bounds

/-!
# The blocks of a script

The ledger of a draft is what it tells of blocks: the open one, those in the document, and the
reports about them. Text, references and calls leave it as it is; a keyword changes it as the
automaton of blocks says. So the blocks of a script and the reports about them are those of the
automaton on the keywords of the script, whatever stands between them.
-/

namespace PromptScript

open BlockAutomaton (Extent Output Pending State accepted emitted reported)

/-- The variant of the block that a statement opens. -/
def Opening.variant : Opening → BlockVariant
  | .conditional _ => .conditional
  | .forEach _ _ => .forEach
  | .onError => .onError

/-- Whether a report is about blocks. -/
def Diagnostic.isAboutBlocks (x : Diagnostic) : Bool :=
  x.code == "E_UNEXPECTED_TOKEN".toList || x.code == "E_UNCLOSED_BLOCK".toList

/-- Whether a token is one that the automaton reads. -/
def Token.isBlockKeyword (t : Token) : Bool :=
  t.kind == .sectionKeyword || t.kind == .statementKeyword || t.kind == .eof

/-- A report is about blocks exactly if it is not about one item alone. -/
theorem Diagnostic.isAboutBlocks_eq (x : Diagnostic) : x.isAboutBlocks = !x.isLocal := by
  simp [isAboutBlocks, isLocal, bne]

/-- What is reported of a problem depends on where its span begins. -/
theorem Document.Problem.diagnostic_congr (problem : Document.Problem) {a b : Span}
    (h : a.start = b.start) : problem.diagnostic a = problem.diagnostic b := by
  rw [diagnostic, diagnostic, Diagnostic.located, Diagnostic.located, h]

/-- An open block in view of the automaton: where it was opened, its variant, and whether its
alternative has begun. -/
abbrev BlockView := Position × BlockVariant × Bool

/-- What a pending block looks like. -/
def BlockAutomaton.Pending.view (p : Pending) : BlockView :=
  (p.opener.place, p.variant, p.alternative)

/-- What an open block looks like. -/
def OpenBlock.view (b : OpenBlock) : BlockView :=
  (b.span.start, b.opening.variant, b.otherwise.isSome)

/-- Text that is added to a block does not change what the automaton sees of it. -/
theorem OpenBlock.view_edit (b : OpenBlock) (change : TextBuffer → TextBuffer) :
    (b.edit change).view = b.view := by
  obtain ⟨opening, body, otherwise, span⟩ := b
  cases otherwise <;> rfl

/-- A block keeps the opening that it was opened with. -/
theorem OpenBlock.opening_block (b : OpenBlock) : b.block.opening = b.opening := by
  obtain ⟨opening, body, otherwise, span⟩ := b
  cases opening <;> rfl

/-- A block whose alternative has not begun has no text for it. -/
theorem OpenBlock.otherwise_block {b : OpenBlock} (h : b.otherwise.isSome = false) :
    b.block.otherwise = [] := by
  obtain ⟨opening, body, otherwise, span⟩ := b
  cases otherwise with
  | none => cases opening <;> rfl
  | some buffer => cases h

/-- What a draft tells of blocks. -/
@[ext] structure BlockLedger where
  /-- The open block. -/
  current : Option BlockView
  /-- The blocks in the document. -/
  blocks : List BlockStatement
  /-- The reports about blocks. -/
  reports : List Diagnostic

namespace Draft

/-- The ledger of a draft. -/
def ledger (d : Draft) : BlockLedger :=
  ⟨d.openBlock.map OpenBlock.view, d.document.blocks, d.diagnostics.filter Diagnostic.isAboutBlocks⟩

variable (d : Draft)

/-- Text that is collected leaves the ledger as it is. -/
@[simp] theorem ledger_edit (change : TextBuffer → TextBuffer) :
    (d.edit change).ledger = d.ledger := by
  unfold edit
  split
  · rename_i b _ hblock
    simp [ledger, hblock, OpenBlock.view_edit]
  · rfl
  · rfl

/-- What is known of the line is no entry of the ledger. -/
@[simp] theorem ledger_setLine (blank hasReference : Bool) :
    (d.setLine blank hasReference).ledger = d.ledger :=
  rfl

/-- Ending a section leaves the ledger as it is. -/
@[simp] theorem ledger_finishSection : d.finishSection.ledger = d.ledger := by
  unfold finishSection
  split <;> rfl

/-- A report that is not about blocks. -/
theorem ledger_report_of_isLocal {problem : Document.Problem} {span : Span}
    (h : (problem.diagnostic span).isLocal = true) : (d.report problem span).ledger = d.ledger := by
  simp [ledger, report, Diagnostic.isAboutBlocks_eq, h]

/-- A fragment of text leaves the ledger as it is. -/
@[simp] theorem ledger_text (t : Token) : (d.text t).ledger = d.ledger := by
  unfold text
  split
  · split
    · exact ledger_edit d _
    · split
      · rename_i b hblock
        simp [ledger, hblock, OpenBlock.view_edit]
      · exact ledger_finishSection d
  · simp only [ledger_setLine, ledger_edit]
    split <;> rfl

/-- A call leaves the ledger as it is, in a block and outside. -/
@[simp] theorem ledger_callApi (span : Span) (arguments : Text) :
    (d.callApi span arguments).ledger = d.ledger := by
  unfold callApi
  split
  · rfl
  · exact ledger_report_of_isLocal d (by rfl)

/-- The body of a reference leaves the ledger as it is. -/
@[simp] theorem ledger_tail (kind : Text) (span : Span) (tail : Item.Tail) :
    (d.tail kind span tail).1.ledger = d.ledger := by
  unfold Draft.tail
  split
  · rfl
  · simp only
    split
    · exact ledger_report_of_isLocal d (by rfl)
    · rfl
  · rename_i mark recovered
    have hreport : (d.report (if mark.text = ['"'] then .unterminatedTarget kind
        else .unterminatedBody kind) mark.span).ledger = d.ledger := by
      refine ledger_report_of_isLocal d ?_
      split <;> rfl
    simp only
    split
    · split
      · simp only [ledger_setLine, ledger_edit, hreport]
      · simp only [ledger_setLine, hreport]
    · exact hreport

/-- A reference leaves the ledger as it is. -/
@[simp] theorem ledger_reference (start : Token) (name target : Option Token)
    (tail : Item.Tail) : (d.reference start name target tail).ledger = d.ledger :=
  ledger_tail { d with lineHasReference := true } _ _ tail

end Draft

/-- Whether a block of a document is one that the automaton emits: it has its variant and begins at
its opening, and it has no text for an alternative that has not begun. -/
structure BlockAutomaton.Extent.Gives (x : Extent) (b : BlockStatement) : Prop where
  /-- The variants are the same. -/
  variant : b.block.opening.variant = x.pending.variant
  /-- The block begins at its opening. -/
  start : b.span.start = x.pending.opener.place
  /-- Without an alternative there is no text for one. -/
  otherwise : x.pending.alternative = false → b.block.otherwise = []

/-- Whether a ledger comes to another as the automaton comes to a state and says something. -/
structure BlockLedger.Moves (before : BlockLedger) (moved : State × List Output)
    (after : BlockLedger) : Prop where
  /-- The open block is the one that is pending. -/
  current : after.current = moved.1.map Pending.view
  /-- What is emitted is added to the document. -/
  blocks : ∃ added, after.blocks = before.blocks ++ added ∧
    List.Forall₂ Extent.Gives (emitted moved.2) added
  /-- What is reported is reported. -/
  reports : after.reports = before.reports ++ reported moved.2

namespace BlockLedger.Moves

variable {before mid after : BlockLedger} {s : State} {moved next : State × List Output}

/-- Where nothing happens to the ledger, the automaton stays and says nothing. -/
theorem stay (h : before.current = s.map Pending.view) : before.Moves (s, []) before :=
  ⟨h, ⟨[], (List.append_nil _).symm, .nil⟩, (List.append_nil _).symm⟩

/-- Two moves in a row are one, which says what both say. -/
theorem trans (h : before.Moves moved mid) (h' : mid.Moves next after) :
    before.Moves (next.1, moved.2 ++ next.2) after := by
  obtain ⟨-, ⟨added, hadded, hgives⟩, hreports⟩ := h
  obtain ⟨hcurrent, ⟨more, hmore, hgives'⟩, hreports'⟩ := h'
  refine ⟨hcurrent, ⟨added ++ more, ?_, ?_⟩, ?_⟩
  · rw [hmore, hadded, List.append_assoc]
  · rw [BlockAutomaton.emitted_append]
    exact List.rel_append hgives hgives'
  · rw [hreports', hreports, BlockAutomaton.reported_append, List.append_assoc]

end BlockLedger.Moves

namespace Draft

variable {d : Draft} {s : State} {t : Token} {span : Span}

/-- A block is open exactly if one is pending, and then they look the same. -/
theorem openBlock_cases (h : d.ledger.current = s.map Pending.view) :
    (d.openBlock = none ∧ s = none) ∨
      ∃ b p, d.openBlock = some b ∧ s = some p ∧ b.view = p.view := by
  have hview : d.openBlock.map OpenBlock.view = s.map Pending.view := h
  cases hblock : d.openBlock with
  | none =>
    cases s with
    | none => exact Or.inl ⟨rfl, rfl⟩
    | some p => simp [hblock] at hview
  | some b =>
    cases s with
    | none => simp [hblock] at hview
    | some p => exact Or.inr ⟨b, p, rfl, rfl, by simpa [hblock] using hview⟩

/-- A report about blocks. -/
theorem ledger_report {problem : Document.Problem} {x : Diagnostic}
    (h : (problem.diagnostic span).isLocal = false) (hx : problem.diagnostic span = x) :
    (d.report problem span).ledger = { d.ledger with reports := d.ledger.reports ++ [x] } := by
  have habout : x.isAboutBlocks = true := by rw [Diagnostic.isAboutBlocks_eq, ← hx, h]; rfl
  simp [ledger, report, hx, habout]

/-- A report about blocks moves the ledger as a report of the automaton. -/
theorem moves_report (h : d.ledger.current = s.map Pending.view) {problem : Document.Problem}
    (hproblem : (problem.diagnostic span).isLocal = false) (hspan : span.start = t.place) :
    d.ledger.Moves (s, [.report (problem.diagnostic t.span)]) (d.report problem span).ledger := by
  have hplace : span.start = t.span.start := hspan
  rw [ledger_report hproblem (problem.diagnostic_congr hplace)]
  exact ⟨h, ⟨[], (List.append_nil _).symm, .nil⟩, rfl⟩

/-- Opening a block moves the ledger as the automaton opens one. -/
theorem moves_openNew (h : d.ledger.current = s.map Pending.view) (hspan : span.start = t.place)
    {opening : Opening} {variant : BlockVariant} (hvariant : opening.variant = variant)
    (rest : Text) : d.ledger.Moves (s.opens t variant) (d.openNew opening span rest).ledger := by
  unfold openNew
  rcases openBlock_cases h with ⟨hblock, rfl⟩ | ⟨b, p, hblock, rfl, -⟩
  · rw [hblock]
    refine ⟨?_, ⟨[], (List.append_nil _).symm, .nil⟩, (List.append_nil _).symm⟩
    simp [ledger, State.opens, OpenBlock.view, Pending.view, hspan, hvariant]
  · rw [hblock]
    exact moves_report h (by rfl) hspan

/-- A block that is not introduced as it should be is opened all the same. -/
theorem moves_openNew_of_report (h : d.ledger.current = s.map Pending.view)
    (hspan : span.start = t.place) {problem : Document.Problem}
    (hproblem : (problem.diagnostic span).isLocal = true) {opening : Opening}
    {variant : BlockVariant} (hvariant : opening.variant = variant) :
    d.ledger.Moves (s.opens t variant) ((d.report problem span).openNew opening span []).ledger := by
  have hreport : (d.report problem span).ledger = d.ledger := ledger_report_of_isLocal d hproblem
  rw [← hreport] at h ⊢
  exact moves_openNew h hspan hvariant []

/-- IF moves the ledger as it moves the automaton, whatever its condition. -/
theorem moves_conditional (h : d.ledger.current = s.map Pending.view)
    (hspan : span.start = t.place) (arguments : Text) :
    d.ledger.Moves (s.opens t .conditional) (d.conditional span arguments).ledger := by
  unfold conditional
  split
  · exact moves_openNew h hspan (by rfl) _
  · exact moves_openNew_of_report h hspan (by rfl) (by rfl)

/-- FOR EACH moves the ledger as it moves the automaton, whatever it goes through. -/
theorem moves_forEach (h : d.ledger.current = s.map Pending.view)
    (hspan : span.start = t.place) (arguments : Text) :
    d.ledger.Moves (s.opens t .forEach) (d.forEach span arguments).ledger := by
  unfold forEach
  split
  · exact moves_openNew h hspan (by rfl) _
  · exact moves_openNew_of_report h hspan (by rfl) (by rfl)

/-- ELSE moves the ledger as it moves the automaton. -/
theorem moves_otherwise (h : d.ledger.current = s.map Pending.view)
    (hspan : span.start = t.place) (arguments : Text) :
    d.ledger.Moves (s.otherwise t) (d.otherwise span arguments).ledger := by
  rcases openBlock_cases h with ⟨hblock, rfl⟩ | ⟨b, p, hblock, rfl, hview⟩
  · rw [otherwise, hblock]
    exact moves_report h (by rfl) hspan
  · obtain ⟨opening, body, other, opened⟩ := b
    obtain ⟨opener, variant, alternative⟩ := p
    simp only [OpenBlock.view, Pending.view, Prod.mk.injEq] at hview
    obtain ⟨hplace, rfl, rfl⟩ := hview
    cases opening with
    | conditional condition =>
      cases other with
      | none =>
        rw [otherwise, hblock]
        refine ⟨?_, ⟨[], (List.append_nil _).symm, .nil⟩, (List.append_nil _).symm⟩
        simp [ledger, State.otherwise, OpenBlock.view, Pending.view, hplace, Opening.variant]
      | some buffer =>
        rw [otherwise, hblock]
        exact moves_report h (by rfl) hspan
    | forEach | onError =>
      rw [otherwise, hblock]
      exact moves_report h (by rfl) hspan

/-- A block that is open gives what is emitted for the one that is pending. -/
theorem gives_block {b : OpenBlock} {p : Pending} (h : b.view = p.view) {span : Span}
    (hspan : span.start = b.span.start) : (Extent.mk p t).Gives ⟨b.block, span⟩ := by
  simp only [OpenBlock.view, Pending.view, Prod.mk.injEq] at h
  obtain ⟨hplace, hvariant, halternative⟩ := h
  refine ⟨?_, hspan.trans hplace, fun hnone => OpenBlock.otherwise_block (halternative.trans hnone)⟩
  rw [OpenBlock.opening_block, hvariant]

/-- END moves the ledger as it moves the automaton, if the block was opened before it. -/
theorem moves_finish (h : d.ledger.current = s.map Pending.view) (hspan : span.start = t.place)
    (hbefore : ∀ opener ∈ s.openers, opener.place ≤ t.place) :
    d.ledger.Moves (s.finish t) (d.finish t.span span).ledger := by
  rcases openBlock_cases h with ⟨hblock, rfl⟩ | ⟨b, p, hblock, rfl, hview⟩
  · rw [finish, hblock]
    exact moves_report h (by rfl) hspan
  · have hplace : b.span.start = p.opener.place := congrArg Prod.fst hview
    have hstart : (b.span.merge t.span).start = b.span.start :=
      Span.start_merge (hplace ▸ hbefore p.opener (List.mem_singleton_self _))
    rw [finish, hblock]
    exact ⟨rfl, ⟨[_], rfl, .cons (gives_block hview hstart) .nil⟩, (List.append_nil _).symm⟩

/-- Closing a block that has no END moves the ledger as an interruption moves the automaton. -/
theorem moves_closeUnfinished (h : d.ledger.current = s.map Pending.view) (t : Token) :
    d.ledger.Moves (s.interrupt t) d.closeUnfinished.ledger := by
  rcases openBlock_cases h with ⟨hblock, rfl⟩ | ⟨b, p, hblock, rfl, hview⟩
  · rw [closeUnfinished, hblock]
    exact .stay h
  · have hplace : b.span.start = p.opener.span.start := congrArg Prod.fst hview
    have hreport : (d.report .unclosedBlock b.span).ledger = _ :=
      ledger_report (by rfl) (Document.Problem.diagnostic_congr _ hplace)
    rw [closeUnfinished, hblock]
    exact ⟨rfl, ⟨[_], rfl, .cons (gives_block hview rfl) .nil⟩, congrArg BlockLedger.reports hreport⟩

/-- A statement moves the ledger as its keyword moves the automaton. -/
theorem moves_statement (h : d.ledger.current = s.map Pending.view) {keyword : Token}
    {rest : Option Token} (hkind : keyword.kind = .statementKeyword)
    (hknown : (statementWords.lookup (Text.words keyword.text)).isSome = true)
    (hline : ∀ line ∈ rest, keyword.place ≤ line.place)
    (hbefore : ∀ opener ∈ s.openers, opener.place ≤ keyword.place) :
    d.ledger.Moves (s.step keyword) (d.statement keyword rest).ledger := by
  obtain ⟨span, arguments, hspan, hstatement⟩ := d.exists_statement hline
  obtain ⟨word, hword⟩ := Option.isSome_iff_exists.mp hknown
  have hready : (d.finishSection.setLine true false).ledger = d.ledger := by simp
  rw [hstatement, hword, State.step, hkind]
  rw [← hready] at h ⊢
  simp only [hword]
  cases word with
  | conditional => exact moves_conditional h hspan arguments
  | forEach => exact moves_forEach h hspan arguments
  | onError => exact moves_openNew h hspan (by rfl) arguments
  | otherwise => exact moves_otherwise h hspan arguments
  | finish => exact moves_finish h hspan hbefore
  | callApi =>
    rw [ledger_callApi]
    exact .stay h

/-- A header moves the ledger as it moves the automaton. -/
theorem moves_header (h : d.ledger.current = s.map Pending.view) (hkind : t.kind = .sectionKeyword)
    (kind : SectionKind) : d.ledger.Moves (s.step t) (d.apply (.header t kind)).ledger := by
  have hready : d.finishSection.ledger = d.ledger := d.ledger_finishSection
  rw [State.step, hkind]
  rw [← hready] at h ⊢
  exact moves_closeUnfinished h t

/-- An item moves the ledger as its keyword moves the automaton, if it has one. -/
theorem moves_apply (h : d.ledger.current = s.map Pending.view) {item : Item}
    (hitem : item.IsWhole) (horder : item.tokens.Pairwise fun a b => a.place < b.place)
    (hbefore : ∀ opener ∈ s.openers, ∀ t ∈ item.tokens, opener.place < t.place) :
    d.ledger.Moves (s.past (item.tokens.filter Token.isBlockKeyword),
      s.run (item.tokens.filter Token.isBlockKeyword)) (d.apply item).ledger := by
  have hlead : item.tokens.filter Token.isBlockKeyword =
      item.tokens.head?.toList.filter Token.isBlockKeyword := by
    refine hitem.filter_tokens fun t ht => ?_
    revert ht
    cases hkind : t.kind <;> simp [Token.isBlockKeyword, hkind, Item.leadKinds]
  cases item with
  | header t kind =>
    have hkeyword : t.isBlockKeyword = true := by simp [Token.isBlockKeyword, hitem.1]
    have hself : (Item.header t kind).tokens.head?.toList.filter Token.isBlockKeyword = [t] := by
      simp [Item.tokens, hkeyword]
    rw [hlead, hself, State.past_run_singleton]
    exact moves_header h hitem.1 kind
  | statement keyword rest =>
    have hkeyword : keyword.isBlockKeyword = true := by simp [Token.isBlockKeyword, hitem.1]
    have hself : (Item.statement keyword rest).tokens.head?.toList.filter Token.isBlockKeyword =
        [keyword] := by
      simp [Item.tokens, hkeyword]
    have hplaces := List.pairwise_cons.mp horder
    rw [hlead, hself, State.past_run_singleton]
    refine moves_statement h hitem.1 hitem.2.1 (fun line hline => ?_) fun opener ho => ?_
    · exact Position.le_of_lt (hplaces.1 line (by simpa using hline))
    · exact Position.le_of_lt (hbefore opener ho keyword List.mem_cons_self)
  | text t =>
    have hkind : t.kind = .text := hitem
    have hnone : (Item.text t).tokens.filter Token.isBlockKeyword = [] := by
      simp [Item.tokens, Token.isBlockKeyword, hkind]
    rw [hnone, apply, ledger_text]
    exact .stay h
  | reference start name target tail =>
    have hnone : (Item.reference start name target tail).tokens.head?.toList.filter
        Token.isBlockKeyword = [] := by
      simp [Item.tokens, Token.isBlockKeyword, hitem.1]
    rw [hlead, hnone, apply, ledger_reference]
    exact .stay h
  | stray => exact absurd hitem id

/-- Items in a row move the ledger as their keywords move the automaton. -/
theorem moves_items {items : List Item} (hwhole : ∀ item ∈ items, item.IsWhole)
    (horder : (items.flatMap Item.tokens).Pairwise fun a b => a.place < b.place)
    (h : d.ledger.current = s.map Pending.view)
    (hbefore : ∀ opener ∈ s.openers, ∀ t ∈ items.flatMap Item.tokens, opener.place < t.place) :
    d.ledger.Moves (s.past ((items.flatMap Item.tokens).filter Token.isBlockKeyword),
      s.run ((items.flatMap Item.tokens).filter Token.isBlockKeyword)) (d.applyAll items).ledger := by
  induction items generalizing d s with
  | nil => exact .stay h
  | cons item items ih =>
    obtain ⟨hitem, hitems⟩ := List.forall_mem_cons.mp hwhole
    rw [List.flatMap_cons] at horder hbefore ⊢
    obtain ⟨hitemOrder, hrestOrder, hlater⟩ := List.pairwise_append.mp horder
    have hfirst := moves_apply h hitem hitemOrder fun opener ho t ht =>
      hbefore opener ho t (List.mem_append_left _ ht)
    have hrest : ∀ opener ∈ (s.past (item.tokens.filter Token.isBlockKeyword)).openers,
        ∀ t ∈ items.flatMap Item.tokens, opener.place < t.place := by
      intro opener ho t ht
      rcases State.mem_openers_past ho with ho | ho
      · exact hbefore opener ho t (List.mem_append_right _ ht)
      · exact hlater opener (List.mem_of_mem_filter ho) t ht
    have hall := hfirst.trans (ih hitems hrestOrder hfirst.current hrest)
    rw [← State.past_append, ← State.run_append, ← List.filter_append] at hall
    exact hall

/-- Items in a row and the end of the script after them move the ledger as their keywords move the
automaton. -/
theorem moves_applyAll {items : List Item} {tokens : List Token}
    (hgroups : Item.Groups items tokens) (horder : tokens.Pairwise fun a b => a.place < b.place)
    (h : d.ledger.current = s.map Pending.view)
    (hbefore : ∀ opener ∈ s.openers, ∀ t ∈ tokens, opener.place < t.place) :
    d.ledger.Moves (s.past (tokens.filter Token.isBlockKeyword),
      s.run (tokens.filter Token.isBlockKeyword)) (d.applyAll items).close.ledger := by
  obtain ⟨last, hlast, rfl⟩ := hgroups.exists_last
  have hitems := moves_items hgroups.isWhole (List.pairwise_append.mp horder).1 h
    fun opener ho t ht => hbefore opener ho t (List.mem_append_left _ ht)
  have hkeyword : last.isBlockKeyword = true := by simp [Token.isBlockKeyword, hlast]
  have hself : [last].filter Token.isBlockKeyword = [last] := by simp [hkeyword]
  have hready : (d.applyAll items).finishSection.ledger = (d.applyAll items).ledger :=
    (d.applyAll items).ledger_finishSection
  rw [← hready] at hitems
  have hend : ∀ m : State, m.interrupt last = (m.past [last], m.run [last]) := fun m => by
    rw [State.past_run_singleton, State.step, hlast]
  have hall := hitems.trans (moves_closeUnfinished hitems.current last)
  rw [hend, ← State.past_append, ← State.run_append] at hall
  rw [List.filter_append, hself]
  exact hall

end Draft

/-- The blocks of a script are those that the automaton emits when it reads the headers, the
keywords of statements and the end of the script, in their order, and the reports about blocks are
its reports, whatever stands between these. Each opening that it accepts it emits once. No block is
inside another: each ends after its opening and before the next one is opened. -/
theorem blocks_follow_keywords (source : Text) :
    let outputs := State.run none ((Token.ofText source).filter Token.isBlockKeyword)
    List.Forall₂ Extent.Gives (emitted outputs) (Parsed.ofText source).document.blocks ∧
      (Parsed.ofText source).diagnostics.filter Diagnostic.isAboutBlocks = reported outputs ∧
      (emitted outputs).map (·.pending.opener) = accepted outputs ∧
      (emitted outputs).Pairwise (fun a b => a.closer.place < b.pending.opener.place) ∧
      ∀ x ∈ emitted outputs, x.pending.opener.place < x.closer.place := by
  have hgroups := Item.groups_ofText source
  have horder := Token.pairwise_ofText source
  have hidle : ∀ opener ∈ State.openers none, ∀ tokens : List Token,
      ∀ t ∈ tokens, opener.place < t.place := fun opener ho => absurd ho List.not_mem_nil
  obtain ⟨-, ⟨added, hadded, hgives⟩, hreports⟩ :=
    Draft.moves_applyAll (d := .empty) hgroups horder rfl fun opener ho => hidle opener ho _
  have hblocks : (Parsed.ofText source).document.blocks = added := hadded
  have hpast : State.past none ((Token.ofText source).filter Token.isBlockKeyword) = none := by
    obtain ⟨last, hlast, htokens⟩ := hgroups.exists_last
    have hkeyword : last.isBlockKeyword = true := by simp [Token.isBlockKeyword, hlast]
    rw [htokens, List.filter_append, List.filter_cons_of_pos hkeyword, List.filter_nil]
    exact State.past_append_eof none _ hlast
  have haccepted := State.openers_append_accepted_run none
    ((Token.ofText source).filter Token.isBlockKeyword)
  rw [hpast] at haccepted
  refine ⟨hblocks ▸ hgives, hreports, ?_,
    State.pairwise_emitted_run (horder.filter _) fun opener ho => hidle opener ho _⟩
  simpa [State.openers] using haccepted.symm

end PromptScript
