import PromptScript.Proofs.Blocks.Ledger

/-!
# Problems of items

What an item reports depends on the texts of its tokens and on how it stands to the blocks: which
variant of a block is open around it, if any, and whether the alternative of that has begun. So the
reports of a script, in their order and without their places, are the problems of its items in a
row.
-/

namespace PromptScript

open Document (Problem)

/-- The report without its place. -/
def Diagnostic.unplaced (x : Diagnostic) : Diagnostic :=
  { x with line := none, column := none }

/-- The report of a problem at no place. -/
def Document.Problem.report (problem : Problem) : Diagnostic :=
  .error problem.code problem.message

/-- Without its place, what is reported of a problem is its report. -/
theorem Document.Problem.unplaced_diagnostic (problem : Problem) (span : Span) :
    (problem.diagnostic span).unplaced = problem.report :=
  rfl

/-- How an item stands to the blocks: the variant of the open block, if any, and whether its
alternative has begun. -/
abbrev Standing := Option (BlockVariant × Bool)

namespace Standing

/-- What is wrong with opening a block. -/
def nested (s : Standing) : List Problem :=
  if s.isSome then [.nestedBlock] else []

/-- What is wrong with the end of a script, or with a header. -/
def unclosed (s : Standing) : List Problem :=
  if s.isSome then [.unclosedBlock] else []

/-- What is wrong with a statement and its arguments. -/
def problems (s : Standing) (arguments : Text) : Draft.StatementWord → List Problem
  | .conditional =>
    (match Text.splitWord? "THEN".toList arguments with
      | some (_ :: _, _) => []
      | _ => [.malformedIf]) ++ s.nested
  | .forEach => (if (Draft.repetition? arguments).isSome then [] else [.malformedForEach]) ++ s.nested
  | .onError => s.nested
  | .otherwise => if s = some (.conditional, false) then [] else [.strayElse]
  | .finish => if s.isSome then [] else [.strayEnd]
  | .callApi =>
    match ApiCall.ofText arguments with
    | .ok _ => []
    | .error problem => [.malformedCall problem]

/-- The standing past a statement. -/
def past (s : Standing) : Draft.StatementWord → Standing
  | .conditional => s.or (some (.conditional, false))
  | .forEach => s.or (some (.forEach, false))
  | .onError => s.or (some (.onError, false))
  | .otherwise => if s = some (.conditional, false) then some (.conditional, true) else s
  | .finish => none
  | .callApi => s

end Standing

namespace Item

/-- What is wrong with what follows the name and the target of a reference of a kind. -/
def Tail.problems (kind : Text) : Item.Tail → List Problem
  | .none => []
  | .braced _ inner _ => if (Draft.deepBrace? 1 inner).isSome then [.deepBody kind] else []
  | .unterminated mark _ =>
    [if mark.text = ['"'] then .unterminatedTarget kind else .unterminatedBody kind]

/-- What is wrong with an item. -/
def problems (s : Standing) : Item → List Problem
  | .header _ _ => s.unclosed
  | .statement keyword rest =>
    match Draft.statementWords.lookup (Text.words keyword.text) with
    | some word => s.problems ((rest.map fun line => Text.trim line.text).getD []) word
    | none => []
  | .text _ => []
  | .reference _ name target tail => tail.problems (Item.found name target tail).kind
  | .stray _ _ => []

/-- The standing past an item. -/
def past (s : Standing) : Item → Standing
  | .header _ _ => none
  | .statement keyword _ =>
    match Draft.statementWords.lookup (Text.words keyword.text) with
    | some word => s.past word
    | none => s
  | .text _ | .reference _ _ _ _ | .stray _ _ => s

/-- What is wrong with the items of a script that are left, and with its end. -/
def allProblems (s : Standing) : List Item → List Problem
  | [] => s.unclosed
  | item :: items => item.problems s ++ allProblems (item.past s) items

end Item

namespace Outline

/-- How the next item stands to the blocks. -/
def standing (o : Outline) : Standing :=
  o.openBlock.map fun b => (b.opening.variant, b.otherwise.isSome)

variable (o : Outline)

/-- Text that is collected does not change the standing. -/
theorem standing_edit (change : TextBuffer → TextBuffer) : (o.edit change).standing = o.standing := by
  cases hb : o.openBlock with
  | some b =>
    rw [edit_of_openBlock hb, standing, standing, hb, Option.map_some, Option.map_some,
      BlockOutline.edit]
    cases b.otherwise <;> simp
  | none =>
    unfold edit standing
    rw [hb]
    cases o.openSection <;> simp [hb]

/-- The end of a section does not change the standing. -/
theorem standing_finishSection : o.finishSection.standing = o.standing := by
  unfold finishSection
  split <;> rfl

/-- After the end of a block no block is open. -/
theorem standing_finishBlock : o.finishBlock.standing = none := by
  unfold finishBlock standing
  split
  · rfl
  · rename_i hb
    rw [hb]
    rfl

/-- A fragment of text does not change the standing. -/
theorem standing_text (t : Text) : (o.text t).standing = o.standing := by
  have hpush := o.standing_edit (·.push t)
  unfold text
  split
  · split
    · exact o.standing_edit .dropLine
    · split
      · rename_i b hb
        rw [edit_of_openBlock hb] at hpush
        exact hpush
      · exact o.standing_finishSection
  · exact hpush

/-- A reference does not change the standing. -/
theorem standing_reference (found : FormReference) (endsLine : Bool) :
    (o.reference found endsLine).standing = o.standing := by
  have hdrop := standing_edit { o with lineHasReference := true } .dropLine
  unfold reference
  dsimp only
  split
  · split
    · exact hdrop
    · rfl
  · rfl

/-- A block is opened where none is open, and its alternative has not begun. -/
theorem standing_openNew (opening : Opening) (rest : Text) :
    (o.openNew opening rest).standing = o.standing.or (some (opening.variant, false)) := by
  unfold openNew standing
  cases hb : o.openBlock with
  | none => rfl
  | some b => simp [hb]

/-- ELSE changes the standing as the word does. -/
theorem standing_otherwise (arguments : Text) :
    (o.otherwise arguments).standing = o.standing.past .otherwise := by
  unfold otherwise standing Standing.past
  cases hb : o.openBlock with
  | none => simp [hb]
  | some b =>
    obtain ⟨opening, body, other⟩ := b
    cases opening <;> cases other <;> simp [hb, Opening.variant]

/-- A statement changes the standing as its word does, whatever its arguments. -/
theorem standing_perform (word : Draft.StatementWord) (arguments : Text) :
    (o.perform word arguments).standing = o.standing.past word := by
  cases word with
  | conditional =>
    rw [perform, conditional]
    split <;> exact standing_openNew ..
  | forEach =>
    rw [perform, forEach]
    split <;> exact standing_openNew ..
  | onError => exact standing_openNew ..
  | otherwise => exact standing_otherwise ..
  | finish => exact standing_finishBlock o
  | callApi =>
    rw [perform, callApi]
    split <;> rfl

/-- The standing past an item depends on the standing before it. -/
theorem standing_apply (item : Item) : (o.apply item).standing = item.past o.standing := by
  cases item with
  | header t kind => exact o.finishSection.standing_finishBlock
  | statement keyword rest =>
    rw [apply, statement, Item.past]
    cases Draft.statementWords.lookup (Text.words keyword.text) with
    | none => exact o.standing_finishSection
    | some word =>
      have hready : (o.finishSection.setLine true false).standing = o.standing :=
        o.standing_finishSection
      simp only [standing_perform, hready]
  | text t => exact o.standing_text t.text
  | reference start name target tail => exact o.standing_reference _ _
  | stray t skipped => rfl

end Outline

namespace Draft

/-- The reports so far, without their places. -/
def reports (d : Draft) : List Diagnostic :=
  d.diagnostics.map Diagnostic.unplaced

variable (d : Draft)

/-- A report comes after those so far. -/
theorem reports_report (problem : Problem) (span : Span) :
    (d.report problem span).reports = d.reports ++ [problem.report] := by
  simp [reports, report, Problem.unplaced_diagnostic]

/-- Drafts with the same diagnostics have the same reports. -/
theorem reports_of_diagnostics {e : Draft} (h : e.diagnostics = d.diagnostics) :
    e.reports = d.reports :=
  congrArg (List.map Diagnostic.unplaced) h

/-- Closing what is unfinished reports what is wrong with an end at the standing. -/
theorem reports_closeUnfinished :
    d.closeUnfinished.reports = d.reports ++ d.outline.standing.unclosed.map Problem.report := by
  unfold closeUnfinished Standing.unclosed Outline.standing
  rw [outline_openBlock]
  cases d.openBlock with
  | none => exact (List.append_nil _).symm
  | some b => exact reports_report d .unclosedBlock b.span

/-- Opening a block reports what is wrong with one at the standing. -/
theorem reports_openNew (opening : Opening) (span : Span) (rest : Text) :
    (d.openNew opening span rest).reports =
      d.reports ++ d.outline.standing.nested.map Problem.report := by
  unfold openNew Standing.nested Outline.standing
  rw [outline_openBlock]
  cases d.openBlock with
  | none => exact (List.append_nil _).symm
  | some b => exact reports_report d .nestedBlock span

/-- A flaw in an opening is reported before what is wrong with opening a block. -/
theorem reports_report_openNew (problem : Problem) (opening : Opening) (span : Span) (rest : Text) :
    ((d.report problem span).openNew opening span rest).reports =
      d.reports ++ ([problem] ++ d.outline.standing.nested).map Problem.report := by
  rw [reports_openNew, reports_report, outline_report, List.map_append, List.append_assoc]
  rfl

/-- ELSE reports what is wrong with it at the standing. -/
theorem reports_otherwise (span : Span) (arguments : Text) :
    (d.otherwise span arguments).reports =
      d.reports ++ (d.outline.standing.problems arguments .otherwise).map Problem.report := by
  have hstray := reports_report d .strayElse span
  unfold otherwise Standing.problems Outline.standing
  rw [outline_openBlock]
  cases hb : d.openBlock with
  | none => exact hstray
  | some b =>
    obtain ⟨opening, body, other, opened⟩ := b
    cases opening with
    | conditional condition =>
      cases other with
      | none => exact (List.append_nil _).symm
      | some buffer => exact hstray
    | forEach | onError => exact hstray

/-- What a statement reports. -/
theorem reports_perform (word : StatementWord) (keyword span : Span) (arguments : Text) :
    (match word with
      | .conditional => d.conditional span arguments
      | .forEach => d.forEach span arguments
      | .onError => d.openNew .onError span arguments
      | .otherwise => d.otherwise span arguments
      | .finish => d.finish keyword span
      | .callApi => d.callApi span arguments).reports =
      d.reports ++ (d.outline.standing.problems arguments word).map Problem.report := by
  cases word with
  | conditional =>
    simp only [conditional, Standing.problems]
    cases Text.splitWord? "THEN".toList arguments with
    | none => exact reports_report_openNew ..
    | some parts =>
      obtain ⟨condition, rest⟩ := parts
      cases condition with
      | nil => exact reports_report_openNew ..
      | cons c condition => exact reports_openNew ..
  | forEach =>
    simp only [forEach, Standing.problems]
    cases repetition? arguments with
    | some parts => exact reports_openNew ..
    | none => exact reports_report_openNew ..
  | onError => exact reports_openNew ..
  | otherwise => exact reports_otherwise ..
  | finish =>
    unfold finish Standing.problems Outline.standing
    rw [outline_openBlock]
    cases d.openBlock with
    | none => exact reports_report d .strayEnd span
    | some b => exact (List.append_nil _).symm
  | callApi =>
    simp only [callApi, Standing.problems]
    cases ApiCall.ofText arguments with
    | ok call => exact (List.append_nil _).symm
    | error problem => exact reports_report d (.malformedCall problem) span

/-- A known statement reports what is wrong with it at the standing. -/
theorem reports_statement {keyword : Token} {rest : Option Token}
    (hknown : (Item.statement keyword rest).IsKnown) :
    (d.statement keyword rest).reports =
      d.reports ++ ((Item.statement keyword rest).problems d.outline.standing).map Problem.report := by
  have hready : (d.finishSection.setLine true false).reports = d.reports :=
    reports_of_diagnostics d diagnostics_finishSection
  have hstanding : (d.finishSection.setLine true false).outline.standing = d.outline.standing := by
    rw [outline_setLine, outline_finishSection]
    exact Outline.standing_finishSection _
  obtain ⟨word, hword⟩ := Option.isSome_iff_exists.mp hknown
  have hperform := fun keyword span arguments =>
    reports_perform (d.finishSection.setLine true false) word keyword span arguments
  rw [hready, hstanding] at hperform
  simp only [statement, Item.problems, hword]
  cases word <;> exact hperform keyword.span _ _

/-- The tail of a reference reports what is wrong with it, whatever the standing. -/
theorem reports_tail (kind : Text) (span : Span) (tail : Item.Tail) :
    (d.tail kind span tail).1.reports = d.reports ++ (tail.problems kind).map Problem.report := by
  cases tail with
  | none => exact (List.append_nil _).symm
  | braced opening inner closing =>
    simp only [Draft.tail, Item.Tail.problems]
    cases deepBrace? 1 inner with
    | none => exact (List.append_nil _).symm
    | some brace => exact reports_report d (.deepBody kind) brace.span
  | unterminated mark recovered =>
    simp only [Draft.tail, Item.Tail.problems, List.map_singleton]
    rw [← reports_report d _ mark.span]
    refine reports_of_diagnostics _ ?_
    split
    · rw [setLine]
      split
      · exact diagnostics_edit _
      · rfl
    · rfl

/-- What an item reports depends on the standing and on its texts. -/
theorem reports_apply {item : Item} (hknown : item.IsKnown) :
    (d.apply item).reports =
      d.reports ++ (item.problems d.outline.standing).map Problem.report := by
  cases item with
  | header t kind =>
    have hclosed := reports_closeUnfinished d.finishSection
    rw [outline_finishSection, Outline.standing_finishSection,
      reports_of_diagnostics d diagnostics_finishSection] at hclosed
    exact hclosed
  | statement keyword rest => exact reports_statement d hknown
  | text t =>
    exact (reports_of_diagnostics d (diagnostics_text t)).trans (List.append_nil _).symm
  | reference start name target tail => exact reports_tail { d with lineHasReference := true } ..
  | stray => exact absurd hknown id

/-- The reports of items in a row and of the end of the script. -/
theorem reports_applyAll_close {items : List Item} (hknown : ∀ item ∈ items, item.IsKnown) :
    (d.applyAll items).close.reports =
      d.reports ++ (Item.allProblems d.outline.standing items).map Problem.report := by
  induction items generalizing d with
  | nil =>
    have hclosed := reports_closeUnfinished d.finishSection
    rw [outline_finishSection, Outline.standing_finishSection,
      reports_of_diagnostics d diagnostics_finishSection] at hclosed
    exact hclosed
  | cons item items ih =>
    obtain ⟨hitem, hitems⟩ := List.forall_mem_cons.mp hknown
    have hstep := ih (d.apply item) hitems
    rw [reports_apply d hitem, outline_apply d hitem, Outline.standing_apply, List.append_assoc,
      ← List.map_append] at hstep
    exact hstep

end Draft

/-- The reports of a script, without their places, are the problems of its items in their order. -/
theorem Parsed.reports_ofText (source : Text) :
    (ofText source).diagnostics.map Diagnostic.unplaced =
      (Item.allProblems none (Item.ofTokens (Token.ofText source))).map Problem.report :=
  Draft.reports_applyAll_close .empty (Item.isKnown_of_grammar (Token.grammar_ofText source))

end PromptScript
