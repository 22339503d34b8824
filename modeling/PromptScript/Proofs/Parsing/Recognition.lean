import PromptScript.Proofs.Parsing.Heads
import PromptScript.Proofs.Parsing.Record
import PromptScript.Proofs.Parsing.Texts

/-!
# Nothing recognised is lost

Each header of a script gives one section, each at sign of a reference gives one reference, and
each keyword of a call gives one call or one report, in their order and from the place of the token
on. Whatever else is open, unfinished or wrong in the script, nothing is lost, doubled or moved.
-/

namespace PromptScript

/-- Lists that are related part by part are related. -/
theorem forall₂_flatMap {α β γ : Type} {R : β → γ → Prop} {f : α → List β} {g : α → List γ}
    {l : List α} (h : ∀ a ∈ l, List.Forall₂ R (f a) (g a)) :
    List.Forall₂ R (l.flatMap f) (l.flatMap g) := by
  induction l with
  | nil => exact .nil
  | cons a l ih =>
    obtain ⟨hfirst, hrest⟩ := List.forall_mem_cons.mp h
    exact List.rel_append hfirst (ih hrest)

/-- The headings that an item gives: a header has one. -/
def Item.headings : Item → List (SectionKind × Position)
  | .header t kind => [(kind, t.place)]
  | _ => []

namespace Draft

/-- The kinds and the places of the sections so far, that of the open one last. -/
def headings (d : Draft) : List (SectionKind × Position) :=
  (d.document.sections.map fun s => (s.kind, s.span.start)) ++
    d.openSection.toList.map fun s => (s.kind, s.span.start)

variable (d : Draft)

/-- A report adds no heading. -/
@[simp] theorem headings_report (problem : Document.Problem) (span : Span) :
    (d.report problem span).headings = d.headings :=
  rfl

/-- What is known of the line adds no heading. -/
@[simp] theorem headings_setLine (blank hasReference : Bool) :
    (d.setLine blank hasReference).headings = d.headings :=
  rfl

/-- A block that is added adds no heading. -/
@[simp] theorem headings_addBlock (block : Block) (span : Span) :
    (d.addBlock block span).headings = d.headings :=
  rfl

/-- Text that is collected adds no heading and takes none away. -/
@[simp] theorem headings_edit (change : TextBuffer → TextBuffer) :
    (d.edit change).headings = d.headings := by
  unfold edit
  split
  · rfl
  · rename_i s _ hsection
    simp [headings, hsection]
  · rfl

/-- No section is open once the open one has ended. -/
theorem openSection_finishSection : d.finishSection.openSection = none := by
  unfold finishSection
  split
  · rfl
  · assumption

/-- A section keeps its heading when it ends. -/
@[simp] theorem headings_finishSection : d.finishSection.headings = d.headings := by
  unfold finishSection
  split
  · rename_i s hsection
    simp [headings, hsection]
  · rfl

/-- Closing an unfinished block adds no heading. -/
@[simp] theorem headings_closeUnfinished : d.closeUnfinished.headings = d.headings := by
  unfold closeUnfinished
  split <;> rfl

/-- Closing an unfinished block leaves the section open. -/
theorem openSection_closeUnfinished : d.closeUnfinished.openSection = d.openSection := by
  unfold closeUnfinished
  split <;> rfl

/-- No section is open at the end of a script. -/
theorem openSection_close : d.close.openSection = none :=
  (openSection_closeUnfinished d.finishSection).trans (openSection_finishSection d)

/-- No section is open once all is closed. -/
theorem openSection_closeAll : d.closeAll.openSection = none :=
  openSection_close d

/-- A section keeps its heading when it is extended to what stands no earlier. -/
theorem headings_extendSection {span : Span}
    (h : ∀ s ∈ d.openSection, s.span.start ≤ span.start) :
    (d.extendSection span).headings = d.headings := by
  cases hsection : d.openSection with
  | none => simp [extendSection, headings, hsection]
  | some s => simp [extendSection, headings, hsection, Span.start_merge (h s hsection)]

/-- A fragment of text that stands no earlier than the open section keeps the headings. -/
theorem headings_text {t : Token} (h : ∀ s ∈ d.openSection, s.span.start ≤ t.place) :
    (d.text t).headings = d.headings := by
  unfold text
  split
  · split
    · exact headings_edit d _
    · split
      · rfl
      · exact headings_finishSection d
  · simp only [headings_setLine, headings_edit]
    split
    · rfl
    · exact headings_extendSection d h

/-- Opening a block adds no heading. -/
@[simp] theorem headings_openNew (opening : Opening) (span : Span) (rest : Text) :
    (d.openNew opening span rest).headings = d.headings := by
  unfold openNew
  split <;> rfl

/-- IF adds no heading. -/
@[simp] theorem headings_conditional (span : Span) (arguments : Text) :
    (d.conditional span arguments).headings = d.headings := by
  unfold conditional
  split <;> simp

/-- FOR EACH adds no heading. -/
@[simp] theorem headings_forEach (span : Span) (arguments : Text) :
    (d.forEach span arguments).headings = d.headings := by
  unfold forEach
  split <;> simp

/-- ELSE adds no heading. -/
@[simp] theorem headings_otherwise (span : Span) (arguments : Text) :
    (d.otherwise span arguments).headings = d.headings := by
  unfold otherwise
  split <;> rfl

/-- END adds no heading. -/
@[simp] theorem headings_finish (keyword span : Span) :
    (d.finish keyword span).headings = d.headings := by
  unfold finish
  split <;> rfl

/-- A call adds no heading. -/
@[simp] theorem headings_callApi (span : Span) (arguments : Text) :
    (d.callApi span arguments).headings = d.headings := by
  unfold callApi
  split <;> rfl

/-- A statement adds no heading, though it ends the open section. -/
@[simp] theorem headings_statement (keyword : Token) (rest : Option Token) :
    (d.statement keyword rest).headings = d.headings := by
  unfold statement
  simp only
  split <;> simp

/-- The body of a reference adds no heading. -/
@[simp] theorem headings_tail (kind : Text) (span : Span) (tail : Item.Tail) :
    (d.tail kind span tail).1.headings = d.headings := by
  unfold Draft.tail
  split
  · rfl
  · simp only
    split <;> rfl
  · simp only
    split
    · split <;> simp
    · rfl

/-- A reference adds no heading. -/
@[simp] theorem headings_reference (start : Token) (name target : Option Token)
    (tail : Item.Tail) : (d.reference start name target tail).headings = d.headings :=
  headings_tail { d with lineHasReference := true } _ _ tail

/-- Of the items that have a place in a script, only a header adds a heading. -/
theorem headings_apply {item : Item} (hitem : item.IsWhole)
    (h : ∀ s ∈ d.openSection, ∀ t ∈ item.tokens, s.span.start ≤ t.place) :
    (d.apply item).headings = d.headings ++ item.headings := by
  cases item with
  | header t kind =>
    have hclosed : d.closeAll.headings = d.headings := by simp [closeAll]
    rw [← hclosed]
    simp [apply, headings, openSection_closeAll, Item.headings, Token.span]
  | statement keyword rest => simp [apply, Item.headings]
  | text t =>
    have htext := headings_text d fun s hs => h s hs t (List.mem_singleton_self t)
    simp [apply, htext, Item.headings]
  | reference start name target tail => simp [apply, Item.headings]
  | stray => exact absurd hitem id

/-- The headings of items in a row are those of their headers. -/
theorem headings_applyAll {items : List Item} {tokens : List Token}
    (h : Item.Groups items tokens) (horder : tokens.Pairwise fun a b => a.place < b.place)
    (hbefore : ∀ x ∈ d.headings, ∀ t ∈ tokens, x.2 ≤ t.place) :
    (d.applyAll items).headings = d.headings ++ items.flatMap Item.headings := by
  induction h generalizing d with
  | eof => simp [applyAll]
  | @cons item items rest hitem _ _ ih =>
    obtain ⟨hitemOrder, hrestOrder, hlater⟩ := List.pairwise_append.mp horder
    have hstep : (d.apply item).headings = d.headings ++ item.headings := by
      refine headings_apply d hitem fun s hs t ht => ?_
      refine hbefore (s.kind, s.span.start) ?_ t (List.mem_append_left _ ht)
      simp [headings, Option.mem_def.mp hs]
    have hrest : ∀ x ∈ (d.apply item).headings, ∀ t ∈ rest, x.2 ≤ t.place := by
      intro x hx t ht
      rw [hstep] at hx
      rcases List.mem_append.mp hx with hx | hx
      · exact hbefore x hx t (List.mem_append_right _ ht)
      · cases item with
        | header first kind =>
          cases List.mem_singleton.mp hx
          exact Position.le_of_lt (hlater first (List.mem_singleton_self first) t ht)
        | _ => cases hx
    have hall : d.applyAll (item :: items) = (d.apply item).applyAll items := rfl
    rw [hall, ih _ hrestOrder hrest, hstep, List.flatMap_cons, List.append_assoc]

end Draft

/-- The sections of a script have the headings of its items. -/
theorem Parsed.headings_ofText (source : Text) :
    ((ofText source).document.sections.map fun s => (s.kind, s.span.start)) =
      (Item.ofTokens (Token.ofText source)).flatMap Item.headings := by
  have hread := Draft.headings_applyAll .empty (Item.groups_ofText source)
    (Token.pairwise_ofText source) (by simp [Draft.headings, Draft.empty, Document.empty])
  have hclose (d : Draft) :
      (d.close.document.sections.map fun s => (s.kind, s.span.start)) = d.headings := by
    have hheadings : d.close.headings = d.headings := by simp [Draft.close]
    rw [← hheadings]
    simp [Draft.headings, Draft.openSection_close]
  have hofText : ((ofText source).document.sections.map fun s => (s.kind, s.span.start)) = _ :=
    hclose (Draft.empty.applyAll (Item.ofTokens (Token.ofText source)))
  rw [hofText, hread]
  rfl

/-- Whether a token is a header. -/
def Token.isHeader (t : Token) : Bool :=
  t.kind == .sectionKeyword

/-- Each header gives one section, of its kind and from its place on. -/
theorem forall₂_sections (source : Text) :
    List.Forall₂ (fun t s => SectionKind.ofHeader? t.text = some s.kind ∧ s.span.start = t.place)
      ((Token.ofText source).filter Token.isHeader) (Parsed.ofText source).document.sections := by
  have hgroups := Item.groups_ofText source
  have hlead : ∀ t : Token, t.isHeader = true → t.kind = .sectionKeyword := by
    simp [Token.isHeader]
  have htokens := hgroups.filter_tokens fun t ht => by rw [hlead t ht]; decide
  have hitems : ∀ item ∈ Item.ofTokens (Token.ofText source),
      List.Forall₂ (fun (t : Token) x => SectionKind.ofHeader? t.text = some x.1 ∧ x.2 = t.place)
        (item.tokens.filter Token.isHeader) item.headings := by
    intro item hmem
    have hitem := hgroups.isWhole item hmem
    rw [hitem.filter_tokens fun t ht => by rw [hlead t ht]; decide]
    cases item with
    | header t kind => simp [Item.tokens, Token.isHeader, hitem.1, Item.headings, hitem.2]
    | statement keyword rest => simp [Item.tokens, Token.isHeader, hitem.1, Item.headings]
    | text t =>
      have ht : t.kind = .text := hitem
      simp [Item.tokens, Token.isHeader, ht, Item.headings]
    | reference start name target tail =>
      simp [Item.tokens, Token.isHeader, hitem.1, Item.headings]
    | stray => exact absurd hitem id
  have hall := forall₂_flatMap hitems
  rw [← htokens, ← Parsed.headings_ofText, List.forall₂_map_right_iff] at hall
  exact hall

/-- Whether a reference is the one that a head names: it begins at the at sign, has the kind of the
head, and its target is what stands in the quotes of the target token. -/
structure Reference.IsNamedBy (r : Reference) (head : ReferenceHead) : Prop where
  /-- The reference begins at the at sign. -/
  start : r.span.start = head.start.place
  /-- The kind is that of the head. -/
  kind : r.kind = head.kind
  /-- The target is the target token without its quotes; there is none without the token. -/
  target : head.target.map (·.text) = r.target.map fun q => '"' :: (q ++ ['"'])

/-- Each head gives one reference, which it names. -/
theorem forall₂_references (source : Text) :
    List.Forall₂ (fun head (r : Reference) => r.IsNamedBy head)
      (Token.referenceHeads (Token.ofText source)) (Parsed.ofText source).document.references := by
  have hgroups := Item.groups_ofText source
  have hreferences : (Parsed.ofText source).document.references = _ :=
    congrArg Record.references (Parsed.record_ofText source)
  rw [hreferences, Item.references_records]
  refine hgroups.forall₂_heads (·.record.references)
    (fun item hmem => Item.references_record_of_not_isReference (hgroups.isWhole item hmem)) ?_
  intro start name target tail rest hmem _
  have hsublist := hgroups.sublist hmem
  have horder := List.pairwise_cons.mp ((Token.pairwise_ofText source).sublist hsublist)
  obtain ⟨span, hstart, hrecord⟩ :=
    Item.exists_record_reference fun t ht => Position.le_of_lt (horder.1 t ht)
  refine ⟨_, congrArg Record.references hrecord, hstart, rfl, ?_⟩
  cases target with
  | none => rfl
  | some t =>
    have hkind : t.kind = .target := (hgroups.isWhole _ hmem).2.2.1 t rfl
    have hmemTarget : t ∈ Token.ofText source := by
      refine hsublist.subset ?_
      simp [Item.tokens]
    have hholds := Token.holds_ofText source t hmemTarget
    rw [hkind] at hholds
    obtain ⟨q, hq, hquote, -⟩ := hholds
    simp [hq, Text.trimChar_quoted hquote]

/-- Whether a report is about a place. -/
def Diagnostic.isAt (x : Diagnostic) (p : Position) : Bool :=
  x.line == some p.line && x.column == some p.column

/-- The report of a problem is about the place where the span begins. -/
theorem Document.Problem.isAt_diagnostic (problem : Document.Problem) (span : Span) :
    (problem.diagnostic span).isAt span.start = true := by
  simp [Diagnostic.isAt, Document.Problem.diagnostic, Diagnostic.located]

/-- A report is about one place at most. -/
theorem Diagnostic.eq_of_isAt {x : Diagnostic} {p q : Position} (hp : x.isAt p = true)
    (hq : x.isAt q = true) : p = q := by
  simp only [isAt, Bool.and_eq_true, beq_iff_eq] at hp hq
  have hline : p.line = q.line := Option.some.inj (hp.1.symm.trans hq.1)
  have hcolumn : p.column = q.column := Option.some.inj (hp.2.symm.trans hq.2)
  cases p
  cases q
  simp only at hline hcolumn
  rw [hline, hcolumn]

/-- Whether a token is the keyword of a call. -/
def Token.isCallKeyword (t : Token) : Bool :=
  t.kind == .statementKeyword && Text.words t.text == ["CALL".toList, "API".toList]

/-- Whether a report says of the keyword of a call that the statement is malformed. -/
def Diagnostic.isCallReport (tokens : List Token) (x : Diagnostic) : Bool :=
  x.code == "E_MALFORMED_STATEMENT".toList && tokens.any fun t => t.isCallKeyword && x.isAt t.place

/-- A report at a token that is no keyword of a call is not on a call. -/
theorem Diagnostic.isCallReport_eq_false {tokens : List Token} {t : Token}
    {x : Diagnostic} (horder : tokens.Pairwise fun a b => a.place < b.place) (hmem : t ∈ tokens)
    (hkeyword : t.isCallKeyword = false) (hplace : x.isAt t.place = true) :
    x.isCallReport tokens = false := by
  refine Bool.eq_false_iff.mpr fun hreport => ?_
  obtain ⟨y, hy, hcall⟩ := List.any_eq_true.mp (Bool.and_eq_true_iff.mp hreport).2
  obtain ⟨hyKeyword, hyPlace⟩ := Bool.and_eq_true_iff.mp hcall
  have hsame : y = t := Token.eq_of_place_eq horder hy hmem (Diagnostic.eq_of_isAt hyPlace hplace)
  rw [hsame, hkeyword] at hyKeyword
  cases hyKeyword

/-- A report on the keyword of a call is not about blocks. -/
theorem Diagnostic.filter_isCallReport (tokens : List Token) (reports : List Diagnostic) :
    (reports.filter Diagnostic.isLocal).filter (·.isCallReport tokens) =
      reports.filter (·.isCallReport tokens) := by
  rw [List.filter_filter]
  refine List.filter_congr fun x _ => ?_
  cases hreport : x.isCallReport tokens with
  | false => rfl
  | true =>
    have hcode : x.code = "E_MALFORMED_STATEMENT".toList := by
      simpa using (Bool.and_eq_true_iff.mp hreport).1
    rw [isLocal, hcode]
    rfl

/-- What becomes of the keyword of a call: a call that begins there, or a report there that the
statement is malformed. -/
inductive Token.IsAnsweredBy (t : Token) : ApiCallStatement ⊕ Diagnostic → Prop
  | call {call : ApiCallStatement} (hstart : call.span.start = t.place) : IsAnsweredBy t (.inl call)
  | report {x : Diagnostic} (hcode : x.code = "E_MALFORMED_STATEMENT".toList)
      (hplace : x.isAt t.place = true) : IsAnsweredBy t (.inr x)

/-- The words of a statement are those of a call exactly if the keyword is. -/
theorem Draft.lookup_statementWords_iff {words : List Text} :
    statementWords.lookup words = some .callApi ↔ words = ["CALL".toList, "API".toList] := by
  constructor
  · intro h
    obtain ⟨before, after, hsplit, -⟩ := List.lookup_eq_some_iff.mp h
    have hmem : (words, StatementWord.callApi) ∈ statementWords := by simp [hsplit]
    simpa [statementWords] using hmem
  · rintro rfl
    decide

/-- A statement is performed with a span that begins at its keyword. -/
theorem Draft.exists_statement (d : Draft) {keyword : Token} {rest : Option Token}
    (h : ∀ line ∈ rest, keyword.place ≤ line.place) :
    ∃ (span : Span) (arguments : Text), span.start = keyword.place ∧
      d.statement keyword rest =
        match statementWords.lookup (Text.words keyword.text) with
        | some .conditional => (d.finishSection.setLine true false).conditional span arguments
        | some .forEach => (d.finishSection.setLine true false).forEach span arguments
        | some .onError => (d.finishSection.setLine true false).openNew .onError span arguments
        | some .otherwise => (d.finishSection.setLine true false).otherwise span arguments
        | some .finish => (d.finishSection.setLine true false).finish keyword.span span
        | some .callApi => (d.finishSection.setLine true false).callApi span arguments
        | none => (d.finishSection.setLine true false).report
            (.unknownStatement (Text.join [' '] (Text.words keyword.text))) span := by
  cases rest with
  | none => exact ⟨keyword.span, [], rfl, rfl⟩
  | some line =>
    refine ⟨if line.isBlank then keyword.span else keyword.span.merge line.span,
      Text.trim line.text, ?_, rfl⟩
    split
    · rfl
    · exact Span.start_merge (h line rfl)

namespace Item

variable {keyword : Token} {rest : Option Token}

/-- A statement of a call adds one call or one report to the record. -/
theorem record_call (h : ∀ line ∈ rest, keyword.place ≤ line.place)
    (hword : Draft.statementWords.lookup (Text.words keyword.text) = some .callApi) :
    (∃ call : ApiCallStatement, call.span.start = keyword.place ∧
      (statement keyword rest).record = ⟨[], [call], []⟩) ∨
    ∃ x : Diagnostic, x.code = "E_MALFORMED_STATEMENT".toList ∧ x.isAt keyword.place = true ∧
      (statement keyword rest).record = ⟨[], [], [x]⟩ := by
  obtain ⟨span, arguments, hstart, hstatement⟩ := Draft.exists_statement .empty h
  rw [hword] at hstatement
  have hempty : (Draft.empty.finishSection.setLine true false) = .empty := rfl
  simp only [hempty] at hstatement
  simp only [record, Draft.apply, hstatement, Draft.callApi]
  cases ApiCall.ofText arguments with
  | ok call => exact Or.inl ⟨⟨call, span⟩, hstart, rfl⟩
  | error problem =>
    refine Or.inr ⟨(Document.Problem.malformedCall problem).diagnostic span, rfl, ?_, rfl⟩
    rw [← hstart]
    exact Document.Problem.isAt_diagnostic _ span

/-- Any other statement adds no call to the record, and reports only that it is malformed. -/
theorem record_statement (h : ∀ line ∈ rest, keyword.place ≤ line.place)
    (hword : Draft.statementWords.lookup (Text.words keyword.text) ≠ some .callApi) :
    (statement keyword rest).record.apiCalls = [] ∧
      ∀ x ∈ (statement keyword rest).record.reports,
        x.code = "E_MALFORMED_STATEMENT".toList ∧ x.isAt keyword.place = true := by
  obtain ⟨span, arguments, hstart, hstatement⟩ := Draft.exists_statement .empty h
  have hempty : (Draft.empty.finishSection.setLine true false) = .empty := rfl
  simp only [hempty] at hstatement
  simp only [record, Draft.apply, hstatement]
  have hquiet {d : Draft} (hd : d.record = .empty) : d.record.apiCalls = [] ∧
      ∀ x ∈ d.record.reports,
        x.code = "E_MALFORMED_STATEMENT".toList ∧ x.isAt keyword.place = true := by
    rw [hd]
    exact ⟨rfl, fun x hx => by cases hx⟩
  have hreport {d : Draft} (problem : Document.Problem)
      (hcode : problem.code = "E_MALFORMED_STATEMENT".toList)
      (hd : d.record = .ofReport (problem.diagnostic span)) : d.record.apiCalls = [] ∧
      ∀ x ∈ d.record.reports,
        x.code = "E_MALFORMED_STATEMENT".toList ∧ x.isAt keyword.place = true := by
    rw [hd, ← hstart]
    refine ⟨rfl, fun x hx => ?_⟩
    rw [List.mem_singleton.mp hx]
    exact ⟨hcode, problem.isAt_diagnostic span⟩
  cases hfound : Draft.statementWords.lookup (Text.words keyword.text) with
  | none => exact hquiet (Draft.record_report_of_not_isLocal _ (by rfl))
  | some word =>
    cases word with
    | conditional =>
      simp only [Draft.conditional]
      split
      · exact hquiet (Draft.record_openNew ..)
      · refine hreport .malformedIf rfl ?_
        rw [Draft.record_openNew, Draft.record_report _ (by rfl), Draft.record_empty,
          Record.empty_append]
    | forEach =>
      simp only [Draft.forEach]
      split
      · exact hquiet (Draft.record_openNew ..)
      · refine hreport .malformedForEach rfl ?_
        rw [Draft.record_openNew, Draft.record_report _ (by rfl), Draft.record_empty,
          Record.empty_append]
    | onError => exact hquiet (Draft.record_openNew ..)
    | otherwise => exact hquiet (Draft.record_otherwise ..)
    | finish => exact hquiet (Draft.record_finish ..)
    | callApi => exact absurd hfound hword

/-- A statement reports only that it is malformed. -/
theorem code_of_mem_reports_statement (h : ∀ line ∈ rest, keyword.place ≤ line.place)
    {x : Diagnostic} (hx : x ∈ (statement keyword rest).record.reports) :
    x.code = "E_MALFORMED_STATEMENT".toList := by
  by_cases hword : Draft.statementWords.lookup (Text.words keyword.text) = some .callApi
  · rcases record_call h hword with ⟨call, -, hrecord⟩ | ⟨y, hcode, -, hrecord⟩
    · rw [hrecord] at hx
      cases hx
    · rw [hrecord] at hx
      rwa [List.mem_singleton.mp hx]
  · exact ((record_statement h hword).2 x hx).1

/-- What becomes of the keywords of calls in an item. -/
def callOutcomes (tokens : List Token) (item : Item) : List (ApiCallStatement ⊕ Diagnostic) :=
  item.record.apiCalls.map .inl ++ (item.record.reports.filter (·.isCallReport tokens)).map .inr

/-- The calls among the outcomes are those that the item records. -/
theorem getLeft?_callOutcomes (tokens : List Token) (item : Item) :
    (item.callOutcomes tokens).filterMap Sum.getLeft? = item.record.apiCalls := by
  simp [callOutcomes, List.filterMap_map, Function.comp_def]

/-- The reports among the outcomes are those of the item that are about calls. -/
theorem getRight?_callOutcomes (tokens : List Token) (item : Item) :
    (item.callOutcomes tokens).filterMap Sum.getRight? =
      item.record.reports.filter (·.isCallReport tokens) := by
  simp [callOutcomes, List.filterMap_map, Function.comp_def]

/-- What is reported of the tail of a reference is not that a statement is malformed. -/
theorem code_ne_of_mem_reports {kind : Text} {tail : Tail} {x : Diagnostic}
    (h : x ∈ tail.reports kind) : x.code ≠ "E_MALFORMED_STATEMENT".toList := by
  cases tail with
  | none => cases h
  | braced opening inner closing =>
    obtain ⟨brace, -, rfl⟩ := List.mem_map.mp h
    change "E_REF_DEPTH".toList ≠ _
    decide
  | unterminated mark recovered =>
    rw [Tail.reports] at h
    split at h
    · rw [List.mem_singleton.mp h]
      change "E_UNTERMINATED_TARGET".toList ≠ _
      decide
    · rw [List.mem_singleton.mp h]
      change "E_UNTERMINATED_REF".toList ≠ _
      decide

/-- Only the first token of an item can be the keyword of a call. -/
theorem IsWhole.filter_isCallKeyword {item : Item} (hitem : item.IsWhole) :
    item.tokens.filter Token.isCallKeyword = item.tokens.head?.toList.filter Token.isCallKeyword := by
  refine hitem.filter_tokens fun t ht => ?_
  have hkind : t.kind = .statementKeyword := by
    simpa using (Bool.and_eq_true_iff.mp ht).1
  rw [hkind]
  decide

/-- An item that is no call has no keyword of a call, and nothing becomes of any. -/
theorem IsWhole.forall₂_callOutcomes_of_not_call {item : Item} (hitem : item.IsWhole)
    {tokens : List Token} (hhead : ∀ t ∈ item.tokens.head?, t.isCallKeyword = false)
    (hcalls : item.record.apiCalls = [])
    (hreports : ∀ x ∈ item.record.reports, x.isCallReport tokens = false) :
    List.Forall₂ Token.IsAnsweredBy (item.tokens.filter Token.isCallKeyword)
      (item.callOutcomes tokens) := by
  have hfilter : item.tokens.head?.toList.filter Token.isCallKeyword = [] :=
    List.filter_eq_nil_iff.mpr fun t ht => by simp [hhead t (by simpa using ht)]
  have hreported : item.record.reports.filter (·.isCallReport tokens) = [] :=
    List.filter_eq_nil_iff.mpr fun x hx => by simp [hreports x hx]
  rw [hitem.filter_isCallKeyword, hfilter, callOutcomes, hcalls, hreported]
  exact .nil

/-- A call is answered by itself, or by the report that it is malformed. -/
theorem forall₂_callOutcomes_call {tokens : List Token} (hitem : (statement keyword rest).IsWhole)
    (hline : ∀ line ∈ rest, keyword.place ≤ line.place) (hmem : keyword ∈ tokens)
    (hword : Draft.statementWords.lookup (Text.words keyword.text) = some .callApi) :
    List.Forall₂ Token.IsAnsweredBy ((statement keyword rest).tokens.filter Token.isCallKeyword)
      ((statement keyword rest).callOutcomes tokens) := by
  have hkeyword : keyword.isCallKeyword = true := by
    simp [Token.isCallKeyword, hitem.1, Draft.lookup_statementWords_iff.mp hword]
  have hself : (statement keyword rest).tokens.head?.toList.filter Token.isCallKeyword =
      [keyword] := by
    simp [Item.tokens, hkeyword]
  rw [hitem.filter_isCallKeyword, hself, callOutcomes]
  rcases record_call hline hword with ⟨call, hstart, hrecord⟩ | ⟨x, hcode, hplace, hrecord⟩
  · rw [hrecord]
    exact .cons (.call hstart) .nil
  · have hreport : x.isCallReport tokens = true := by
      rw [Diagnostic.isCallReport, hcode, beq_self_eq_true, Bool.true_and, List.any_eq_true]
      exact ⟨keyword, hmem, by simp [hkeyword, hplace]⟩
    rw [hrecord]
    simp only [List.map_nil, List.nil_append, List.filter_cons, hreport, if_true, List.filter_nil]
    exact .cons (.report hcode hplace) .nil

/-- In a script, each keyword of a call is answered by one call or one report. -/
theorem Groups.forall₂_callOutcomes {items : List Item} {tokens : List Token}
    (h : Groups items tokens) (horder : tokens.Pairwise fun a b => a.place < b.place)
    {item : Item} (hmem : item ∈ items) :
    List.Forall₂ Token.IsAnsweredBy (item.tokens.filter Token.isCallKeyword)
      (item.callOutcomes tokens) := by
  have hitem := h.isWhole item hmem
  have hsublist := h.sublist hmem
  cases item with
  | header t kind =>
    refine hitem.forall₂_callOutcomes_of_not_call ?_ rfl fun x hx => by cases hx
    rintro x ⟨⟩
    simp [Token.isCallKeyword, hitem.1]
  | text t =>
    have hkind : t.kind = .text := hitem
    have hrecord : (text t).record = .empty := Draft.record_text .empty t
    refine hitem.forall₂_callOutcomes_of_not_call ?_ (by rw [hrecord]; rfl) ?_
    · rintro x ⟨⟩
      simp [Token.isCallKeyword, hkind]
    · rw [hrecord]
      exact fun x hx => by cases hx
  | reference start name target tail =>
    have hplaces := List.pairwise_cons.mp (horder.sublist hsublist)
    obtain ⟨span, -, hrecord⟩ :=
      exists_record_reference fun t ht => Position.le_of_lt (hplaces.1 t ht)
    refine hitem.forall₂_callOutcomes_of_not_call ?_ (by rw [hrecord]) fun x hx => ?_
    · rintro x ⟨⟩
      simp [Token.isCallKeyword, hitem.1]
    · rw [hrecord] at hx
      rw [Diagnostic.isCallReport, beq_eq_false_iff_ne.mpr (code_ne_of_mem_reports hx), Bool.false_and]
  | statement keyword rest =>
    have hplaces := List.pairwise_cons.mp (horder.sublist hsublist)
    have hline : ∀ line ∈ rest, keyword.place ≤ line.place := fun line hline =>
      Position.le_of_lt (hplaces.1 line (by simpa using hline))
    have hkeywordMem : keyword ∈ tokens := hsublist.subset List.mem_cons_self
    by_cases hword : Draft.statementWords.lookup (Text.words keyword.text) = some .callApi
    · exact forall₂_callOutcomes_call hitem hline hkeywordMem hword
    · obtain ⟨hcalls, hreports⟩ := record_statement hline hword
      have hkeyword : keyword.isCallKeyword = false := by
        rw [Draft.lookup_statementWords_iff] at hword
        rw [Token.isCallKeyword, beq_eq_false_iff_ne.mpr hword, Bool.and_false]
      refine hitem.forall₂_callOutcomes_of_not_call ?_ hcalls fun x hx => ?_
      · rintro t ⟨⟩
        exact hkeyword
      · exact Diagnostic.isCallReport_eq_false horder hkeywordMem hkeyword (hreports x hx).2
  | stray => exact absurd hitem id

end Item

/-- Nothing recognised is lost, doubled or moved. Headers and sections correspond one to one and in
order; each section is of the kind of its header and begins there. Each at sign begins one head, and
the heads and the references correspond one to one and in order; each reference is the one that its
head names. The keywords of calls correspond one to one and in order to the calls and the reports on
keywords of calls, each of which is at its keyword. -/
theorem recognised_recorded (source : Text) :
    List.Forall₂ (fun t s => SectionKind.ofHeader? t.text = some s.kind ∧ s.span.start = t.place)
      ((Token.ofText source).filter Token.isHeader) (Parsed.ofText source).document.sections ∧
    (Token.referenceHeads (Token.ofText source)).map ReferenceHead.start =
      (Token.ofText source).filter Token.isReferenceStart ∧
    List.Forall₂ (fun head (r : Reference) => r.IsNamedBy head)
      (Token.referenceHeads (Token.ofText source)) (Parsed.ofText source).document.references ∧
    ∃ outcomes : List (ApiCallStatement ⊕ Diagnostic),
      List.Forall₂ Token.IsAnsweredBy ((Token.ofText source).filter Token.isCallKeyword) outcomes ∧
      outcomes.filterMap Sum.getLeft? = (Parsed.ofText source).document.apiCalls ∧
      outcomes.filterMap Sum.getRight? =
        (Parsed.ofText source).diagnostics.filter (·.isCallReport (Token.ofText source)) := by
  refine ⟨forall₂_sections source, Token.map_start_referenceHeads _, forall₂_references source, ?_⟩
  have hgroups := Item.groups_ofText source
  refine ⟨(Item.ofTokens (Token.ofText source)).flatMap
    (Item.callOutcomes (Token.ofText source)), ?_, ?_, ?_⟩
  · have hkeywords := hgroups.filter_tokens fun t (ht : t.isCallKeyword = true) => by
      have hkind : t.kind = .statementKeyword := by simpa using (Bool.and_eq_true_iff.mp ht).1
      rw [hkind]
      decide
    rw [hkeywords]
    exact forall₂_flatMap fun item hmem =>
      hgroups.forall₂_callOutcomes (Token.pairwise_ofText source) hmem
  · have hcalls : (Parsed.ofText source).document.apiCalls = _ :=
      congrArg Record.apiCalls (Parsed.record_ofText source)
    rw [hcalls, Item.apiCalls_records, List.filterMap_flatMap]
    simp only [Item.getLeft?_callOutcomes]
  · have hreports : (Parsed.ofText source).diagnostics.filter Diagnostic.isLocal = _ :=
      congrArg Record.reports (Parsed.record_ofText source)
    rw [← Diagnostic.filter_isCallReport, hreports, Item.reports_records, List.filterMap_flatMap,
      List.filter_flatMap]
    simp only [Item.getRight?_callOutcomes]

end PromptScript
