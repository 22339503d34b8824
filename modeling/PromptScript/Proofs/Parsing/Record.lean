import PromptScript.Proofs.Lexing.Order
import PromptScript.Proofs.Parsing.Grouping
import PromptScript.Proofs.Parsing.References

/-!
# Records

The record of a draft is what no later item takes back and no open section or block decides: the
references, the calls, and the reports that are not about blocks. What an item adds to the record
is the same in every draft, so the record of a script is that of its items in a row.
-/

namespace PromptScript

/-- Whether a report is about one item alone, and not about the block that it stands in. -/
def Diagnostic.isLocal (x : Diagnostic) : Bool :=
  x.code != "E_UNEXPECTED_TOKEN".toList && x.code != "E_UNCLOSED_BLOCK".toList

/-- References, calls and reports in the order in which they are found. -/
@[ext] structure Record where
  /-- The references. -/
  references : List Reference
  /-- The calls. -/
  apiCalls : List ApiCallStatement
  /-- The reports that are not about blocks. -/
  reports : List Diagnostic
  deriving DecidableEq

namespace Record

/-- The record of nothing. -/
def empty : Record := ⟨[], [], []⟩

/-- Two records in a row. -/
def append (a b : Record) : Record :=
  ⟨a.references ++ b.references, a.apiCalls ++ b.apiCalls, a.reports ++ b.reports⟩

instance : Append Record := ⟨append⟩

/-- The references of two records in a row are those of the one and then those of the other. -/
@[simp] theorem references_append (a b : Record) :
    (a ++ b).references = a.references ++ b.references := rfl

/-- The calls of two records in a row are those of the one and then those of the other. -/
@[simp] theorem apiCalls_append (a b : Record) :
    (a ++ b).apiCalls = a.apiCalls ++ b.apiCalls := rfl

/-- The reports of two records in a row are those of the one and then those of the other. -/
@[simp] theorem reports_append (a b : Record) : (a ++ b).reports = a.reports ++ b.reports := rfl

/-- Nothing after a record adds nothing to it. -/
@[simp] theorem append_empty (a : Record) : a ++ empty = a := by
  ext1 <;> simp [empty]

/-- Nothing before a record adds nothing to it. -/
@[simp] theorem empty_append (a : Record) : empty ++ a = a := by
  ext1 <;> simp [empty]

/-- Records in a row can be grouped in any way. -/
theorem append_assoc (a b c : Record) : a ++ b ++ c = a ++ (b ++ c) := by
  ext1 <;> simp

/-- A report alone. -/
def ofReport (x : Diagnostic) : Record := ⟨[], [], [x]⟩

end Record

/-- What is reported of what follows the name and the target of a reference of a kind. -/
def Item.Tail.reports (kind : Text) : Item.Tail → List Diagnostic
  | .none => []
  | .braced _ inner _ =>
    (Draft.deepBrace? 1 inner).toList.map fun brace =>
      (Document.Problem.deepBody kind).diagnostic brace.span
  | .unterminated mark _ =>
    if mark.text = ['"'] then [(Document.Problem.unterminatedTarget kind).diagnostic mark.span]
    else [(Document.Problem.unterminatedBody kind).diagnostic mark.span]

namespace Draft

/-- The record of a draft. -/
def record (d : Draft) : Record :=
  ⟨d.document.references, d.document.apiCalls, d.diagnostics.filter Diagnostic.isLocal⟩

@[simp] theorem record_empty : empty.record = .empty := rfl

variable (d : Draft)

/-- Text that is collected is no part of the record. -/
@[simp] theorem record_edit (change : TextBuffer → TextBuffer) : (d.edit change).record = d.record := by
  unfold edit
  split <;> rfl

/-- Ending a section adds nothing to the record. -/
@[simp] theorem record_finishSection : d.finishSection.record = d.record := by
  unfold finishSection
  split <;> rfl

/-- A block that is added is no part of the record. -/
@[simp] theorem record_addBlock (block : Block) (span : Span) :
    (d.addBlock block span).record = d.record :=
  rfl

/-- What is known of the line is no part of the record. -/
@[simp] theorem record_setLine (blank hasReference : Bool) :
    (d.setLine blank hasReference).record = d.record :=
  rfl

/-- A report about blocks leaves the record as it is. -/
theorem record_report_of_not_isLocal {problem : Document.Problem} {span : Span}
    (h : (problem.diagnostic span).isLocal = false) : (d.report problem span).record = d.record := by
  simp [record, report, h]

/-- Any other report is the last of the record. -/
theorem record_report {problem : Document.Problem} {span : Span}
    (h : (problem.diagnostic span).isLocal = true) :
    (d.report problem span).record = d.record ++ .ofReport (problem.diagnostic span) := by
  ext1 <;> simp [record, report, h, Record.ofReport]

/-- The report of an unfinished block is about blocks and so no part of the record. -/
@[simp] theorem record_closeUnfinished : d.closeUnfinished.record = d.record := by
  unfold closeUnfinished
  split
  · rw [record_addBlock]
    exact record_report_of_not_isLocal d (by rfl)
  · rfl

/-- Closing all that is open adds nothing to the record. -/
@[simp] theorem record_closeAll : d.closeAll.record = d.record := by
  simp [closeAll]

/-- The end of a script adds nothing to the record. -/
@[simp] theorem record_close : d.close.record = d.record := by
  simp [close]

/-- A fragment of text adds nothing to the record. -/
@[simp] theorem record_text (t : Token) : (d.text t).record = d.record := by
  unfold text
  split
  · split
    · exact record_edit d _
    · split
      · rfl
      · exact record_finishSection d
  · simp only [record_setLine, record_edit]
    split <;> rfl

/-- Opening a block adds nothing to the record, whether it is opened or reported. -/
@[simp] theorem record_openNew (opening : Opening) (span : Span) (rest : Text) :
    (d.openNew opening span rest).record = d.record := by
  unfold openNew
  split
  · exact record_report_of_not_isLocal d (by rfl)
  · rfl

/-- ELSE adds nothing to the record. -/
@[simp] theorem record_otherwise (span : Span) (arguments : Text) :
    (d.otherwise span arguments).record = d.record := by
  unfold otherwise
  split
  · rfl
  · exact record_report_of_not_isLocal d (by rfl)

/-- END adds nothing to the record. -/
@[simp] theorem record_finish (keyword span : Span) : (d.finish keyword span).record = d.record := by
  unfold finish
  split
  · exact record_addBlock d _ _
  · exact record_report_of_not_isLocal d (by rfl)

/-- IF adds to the record what it adds to an empty draft. -/
theorem record_conditional (span : Span) (arguments : Text) :
    (d.conditional span arguments).record = d.record ++ (empty.conditional span arguments).record := by
  unfold conditional
  split
  · simp
  · have hlocal : (Document.Problem.malformedIf.diagnostic span).isLocal = true := by rfl
    simp only [record_openNew, record_report _ hlocal, record_empty, Record.empty_append]

/-- FOR EACH adds to the record what it adds to an empty draft. -/
theorem record_forEach (span : Span) (arguments : Text) :
    (d.forEach span arguments).record = d.record ++ (empty.forEach span arguments).record := by
  unfold forEach
  split
  · simp
  · have hlocal : (Document.Problem.malformedForEach.diagnostic span).isLocal = true := by rfl
    simp only [record_openNew, record_report _ hlocal, record_empty, Record.empty_append]

/-- A call adds to the record what it adds to an empty draft. -/
theorem record_callApi (span : Span) (arguments : Text) :
    (d.callApi span arguments).record = d.record ++ (empty.callApi span arguments).record := by
  unfold callApi
  cases ApiCall.ofText arguments with
  | ok call => ext1 <;> simp [record, empty, Document.empty]
  | error problem =>
    have hlocal : ((Document.Problem.malformedCall problem).diagnostic span).isLocal = true := by rfl
    simp only [record_report _ hlocal, record_empty, Record.empty_append]

/-- A statement adds to the record what it adds to an empty draft. -/
theorem record_statement (keyword : Token) (rest : Option Token) :
    (d.statement keyword rest).record = d.record ++ (empty.statement keyword rest).record := by
  have hready : (d.finishSection.setLine true false).record = d.record := by simp
  have hempty : (empty.finishSection.setLine true false) = empty := rfl
  unfold statement
  simp only [hempty]
  cases Draft.statementWords.lookup (Text.words keyword.text) with
  | none =>
    simp only
    rw [record_report_of_not_isLocal _ (by rfl), record_report_of_not_isLocal _ (by rfl), hready]
    simp
  | some word =>
    cases word with
    | conditional => rw [record_conditional, hready]
    | forEach => rw [record_forEach, hready]
    | onError => simp
    | otherwise => simp
    | finish => simp
    | callApi => rw [record_callApi, hready]

/-- The body and the part of the script with it depend on the tokens alone. -/
theorem tail_snd (e : Draft) (kind : Text) (span : Span) (tail : Item.Tail) :
    (d.tail kind span tail).2 = (e.tail kind span tail).2 := by
  cases tail <;> rfl

/-- The body of a reference adds its reports to the record. -/
theorem record_tail (kind : Text) (span : Span) (tail : Item.Tail) :
    (d.tail kind span tail).1.record = d.record ++ ⟨[], [], tail.reports kind⟩ := by
  cases tail with
  | none => exact (Record.append_empty _).symm
  | braced opening inner closing =>
    simp only [Draft.tail, Item.Tail.reports]
    cases deepBrace? 1 inner with
    | none => exact (Record.append_empty _).symm
    | some brace => exact record_report d (by rfl)
  | unterminated mark recovered =>
    have hsettled (problem : Document.Problem) :
        (if recovered.getLast?.any Token.endsLine = true then
          (if d.lineBlank = true then (d.report problem mark.span).edit .dropLine
            else d.report problem mark.span).setLine true false
          else d.report problem mark.span).record = (d.report problem mark.span).record := by
      split
      · split
        · rw [record_setLine, record_edit]
        · rw [record_setLine]
      · rfl
    simp only [Draft.tail, Item.Tail.reports, hsettled]
    split
    · exact record_report d (by rfl)
    · exact record_report d (by rfl)

/-- A reference that is added is the last one of the record. -/
theorem record_addReference (r : Reference) :
    { d with document := { d.document with
        references := d.document.references ++ [r] } }.record = d.record ++ ⟨[r], [], []⟩ := by
  ext1 <;> simp [record]

/-- A reference adds itself and what its tail reports to the record. -/
theorem record_reference (start : Token) (name target : Option Token) (tail : Item.Tail) :
    (d.reference start name target tail).record =
      d.record ++ (empty.reference start name target tail).record := by
  have hmarked (e : Draft) : { e with lineHasReference := true }.record = e.record := rfl
  unfold reference
  simp only [record_addReference, tail_snd _ empty]
  rw [record_tail, record_tail, hmarked, hmarked, record_empty, Record.empty_append,
    Record.append_assoc]

/-- What an item adds to the record is the same in every draft. -/
theorem record_apply (item : Item) :
    (d.apply item).record = d.record ++ (empty.apply item).record := by
  cases item with
  | header t kind =>
    have hopen (e : Draft) (s : OpenSection) : { e with openSection := some s }.record = e.record :=
      rfl
    simp [apply, hopen]
  | statement keyword rest => exact record_statement d keyword rest
  | text t => simp [apply]
  | reference start name target tail => exact record_reference d start name target tail
  | stray t skipped =>
    have hclosed (e : Draft) : (if t.kind = .sectionKeyword then e.closeAll else e).record =
        e.record := by
      split
      · exact record_closeAll e
      · rfl
    have hstray (e : Draft) : (e.stray t skipped).record = e.record := by
      have hreport (m : Draft) (span : Span) :
          (m.report (.unexpectedToken t.kind t.text) span).record = m.record :=
        record_report_of_not_isLocal m (by rfl)
      simp only [stray]
      by_cases hline : t.endsLine = true ∨ skipped.getLast?.any Token.endsLine = true
      · rw [if_pos hline, record_setLine, hreport, hclosed]
      · rw [if_neg hline, hreport, hclosed]
    simp [apply, hstray]

end Draft

/-- What an item adds to the record. -/
def Item.record (item : Item) : Record :=
  (Draft.empty.apply item).record

/-- What items in a row add to the record. -/
def Item.records : List Item → Record
  | [] => .empty
  | item :: items => item.record ++ records items

namespace Item

/-- The references of items in a row are those of each. -/
theorem references_records (items : List Item) :
    (records items).references = items.flatMap (·.record.references) := by
  induction items with
  | nil => rfl
  | cons item items ih => rw [records, Record.references_append, ih, List.flatMap_cons]

/-- The calls of items in a row are those of each. -/
theorem apiCalls_records (items : List Item) :
    (records items).apiCalls = items.flatMap (·.record.apiCalls) := by
  induction items with
  | nil => rfl
  | cons item items ih => rw [records, Record.apiCalls_append, ih, List.flatMap_cons]

/-- The reports of items in a row are those of each. -/
theorem reports_records (items : List Item) :
    (records items).reports = items.flatMap (·.record.reports) := by
  induction items with
  | nil => rfl
  | cons item items ih => rw [records, Record.reports_append, ih, List.flatMap_cons]

end Item

/-- Items in a row add to the record of any draft what they add to an empty one. -/
theorem Draft.record_applyAll (d : Draft) (items : List Item) :
    (d.applyAll items).record = d.record ++ Item.records items := by
  induction items generalizing d with
  | nil => simp [applyAll, Item.records]
  | cons item items ih =>
    have hstep : d.applyAll (item :: items) = (d.apply item).applyAll items := rfl
    rw [hstep, ih, record_apply, Record.append_assoc]
    rfl

/-- The record of a script is that of its items. -/
theorem Parsed.record_ofText (source : Text) :
    (⟨(ofText source).document.references, (ofText source).document.apiCalls,
        (ofText source).diagnostics.filter Diagnostic.isLocal⟩ : Record) =
      Item.records (Item.ofTokens (Token.ofText source)) := by
  have hread := Draft.record_applyAll .empty (Item.ofTokens (Token.ofText source))
  rw [Draft.record_empty, Record.empty_append, ← Draft.record_close] at hread
  exact hread

namespace Item

variable {start : Token} {name target : Option Token} {tail : Tail}

/-- A span extended to tokens that stand no earlier keeps its start. -/
theorem start_coverTokens {span : Span} {ts : List Token} (h : ∀ t ∈ ts, span.start ≤ t.place) :
    (Draft.coverTokens span ts).start = span.start := by
  induction ts generalizing span with
  | nil => rfl
  | cons t ts ih =>
    obtain ⟨hfirst, hrest⟩ := List.forall_mem_cons.mp h
    have hmerge : (span.merge t.span).start = span.start := Span.start_merge hfirst
    have hstep : Draft.coverTokens span (t :: ts) = Draft.coverTokens (span.merge t.span) ts := rfl
    rw [hstep, ih (by rwa [hmerge]), hmerge]

/-- What follows a name and a target extends the span of the reference and keeps its start. -/
theorem start_tail (d : Draft) (kind : Text) {span : Span}
    (h : ∀ t ∈ tail.tokens, span.start ≤ t.place) : (d.tail kind span tail).2.2.start = span.start := by
  cases tail with
  | none => rfl
  | braced opening inner closing => exact start_coverTokens (List.forall_mem_cons.mp h).2
  | unterminated mark recovered => exact start_coverTokens h

/-- Whether an item is a reference. -/
def isReference : Item → Bool
  | .reference _ _ _ _ => true
  | _ => false

/-- A whole item has a place in a script. -/
theorem IsWhole.isKnown {item : Item} (h : item.IsWhole) : item.IsKnown := by
  cases item with
  | statement keyword rest => exact h.2.1
  | stray => exact h
  | _ => trivial

/-- Only references add references to the record. -/
theorem references_record_of_not_isReference {item : Item} (hitem : item.IsWhole)
    (hne : item.isReference = false) : item.record.references = [] := by
  have hnone : item.reference? = none := by
    cases item with
    | reference => cases hne
    | _ => rfl
  have houtline := congrArg Outline.references (Draft.outline_apply Draft.empty hitem.isKnown)
  rw [Outline.references_apply, hnone] at houtline
  exact List.map_eq_nil_iff.mp houtline

/-- The kind of a reference by the tokens of its name and its target. -/
def kindOfTokens (name target : Option Token) : Text :=
  kindOf ((name.map (·.text)).getD []) (target.map (·.text))

/-- A reference is recorded with the kind, the target and the body that its tokens give, from its
at sign on, and with the reports on its tail. -/
theorem exists_record_reference
    (h : ∀ t ∈ name.toList ++ (target.toList ++ tail.tokens), start.place ≤ t.place) :
    ∃ span : Span, span.start = start.place ∧
      (reference start name target tail).record =
        ⟨[⟨kindOfTokens name target, target.map fun t => Text.trimChar '"' t.text,
          Text.trim tail.body, Params.ofBody (Text.trim tail.body), span⟩], [],
          tail.reports (kindOfTokens name target)⟩ := by
  have hnamed : ∀ t ∈ name.toList ++ target.toList, start.span.start ≤ t.place := by
    intro t ht
    refine h t ?_
    rw [← List.append_assoc]
    exact List.mem_append_left _ ht
  have hstart := start_coverTokens hnamed
  have htail : ∀ t ∈ tail.tokens,
      (Draft.coverTokens start.span (name.toList ++ target.toList)).start ≤ t.place := by
    intro t ht
    rw [hstart]
    refine h t ?_
    rw [← List.append_assoc]
    exact List.mem_append_right _ ht
  have hkind : (if target.isSome then Text.trimEndChar ':' ((name.map (·.text)).getD [])
      else (name.map (·.text)).getD []) = kindOfTokens name target := by
    rw [kindOfTokens, kindOf, Option.isSome_map]
  refine ⟨_, (start_tail { Draft.empty with lineHasReference := true }
    (kindOfTokens name target) htail).trans hstart, ?_⟩
  simp only [record, Draft.apply, Draft.reference, Draft.record_addReference, Draft.record_tail, hkind, Draft.tail_body]
  exact Record.ext rfl rfl (List.append_nil _)

end Item

end PromptScript
