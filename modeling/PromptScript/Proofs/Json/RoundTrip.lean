import PromptScript.Json.Form
import PromptScript.Proofs.Json.Records

/-!
# Documents, forms and diagnostics are restored

What is written for a document, a form or a diagnostic is read back as the same value, member by
member: from the value as it is written, from the one with sorted members, and from its text.
-/

namespace PromptScript

open Json

variable (depth : Nat)

namespace Span

/-- Whether the numbers of a span have 64 bits. -/
structure IsWord (s : Span) : Prop where
  /-- The line where it begins. -/
  line : s.start.line ≤ maxWord
  /-- The column where it begins. -/
  column : s.start.column ≤ maxWord
  /-- The line where it ends. -/
  endLine : s.stop.line ≤ maxWord
  /-- The column where it ends. -/
  endColumn : s.stop.column ≤ maxWord

/-- The members of a span. -/
def row (s : Span) : Row :=
  [("line", some (nat s.start.line)), ("column", some (nat s.start.column)),
    ("endLine", some (nat s.stop.line)), ("endColumn", some (nat s.stop.column))]

/-- A span of 64-bit places is restored. -/
theorem restores {s : Span} (h : s.IsWord) : Restores ofJson? (depth + 1) s.toJson s := by
  have hline : Restores nat? depth _ _ := .nat h.line
  have hcolumn : Restores nat? depth _ _ := .nat h.column
  have hendLine : Restores nat? depth _ _ := .nat h.endLine
  have hendColumn : Restores nat? depth _ _ := .nat h.endColumn
  refine restores_record s.row (by simp [row]) ?_ fun members hrow => ?_
  · simp only [row, List.forall_mem_cons]
    exact ⟨hline.fits_required, hcolumn.fits_required, hendLine.fits_required,
      hendColumn.fits_required, by simp⟩
  · simp only [row, List.forall_mem_cons] at hrow
    obtain ⟨line, column, endLine, endColumn, -⟩ := hrow
    simp only [ofJson?, fields?, Option.bind_eq_bind, Option.bind_some, line.required hline,
      column.required hcolumn, endLine.required hendLine, endColumn.required hendColumn]

end Span

namespace Diagnostic

/-- Whether the place of a diagnostic has numbers of 64 bits. -/
structure IsWord (d : Diagnostic) : Prop where
  /-- The line. -/
  line : ∀ n ∈ d.line, n ≤ maxWord
  /-- The column. -/
  column : ∀ n ∈ d.column, n ≤ maxWord

/-- The members of a diagnostic. -/
def row (d : Diagnostic) : Row :=
  [("message", some (.string d.message)), ("severity", some (.string d.severity.name)),
    ("code", some (.string d.code)), ("line", d.line.map nat), ("col", d.column.map nat)]

/-- A diagnostic is written as its row of members. -/
theorem toJson_eq (d : Diagnostic) : d.toJson = .object d.row.members := by
  simp [toJson, row, Row.members, memberIf]

/-- A diagnostic with a 64-bit place is restored. -/
theorem restores {d : Diagnostic} (h : d.IsWord) : Restores ofJson? (depth + 1) d.toJson d := by
  have hmessage := Restores.text depth d.message
  have hseverity : Restores (choice? Severity.choices) depth (.string d.severity.name) d.severity :=
    .choice (by cases d.severity <;> rfl)
  have hcode := Restores.text depth d.code
  have hline : ∀ n ∈ d.line, Restores nat? depth (nat n) n := fun n hn => .nat (h.line n hn)
  have hcolumn : ∀ n ∈ d.column, Restores nat? depth (nat n) n := fun n hn => .nat (h.column n hn)
  rw [toJson_eq]
  refine restores_record _ (by simp [row]) ?_ fun members hrow => ?_
  · simp only [row, List.forall_mem_cons]
    exact ⟨hmessage.fits_required, hseverity.fits_required, hcode.fits_required,
      Restores.fits_optional hline, Restores.fits_optional hcolumn, by simp⟩
  · simp only [row, List.forall_mem_cons] at hrow
    obtain ⟨message, severity, code, line, column, -⟩ := hrow
    simp only [ofJson?, fields?, Option.bind_eq_bind, Option.bind_some, message.required hmessage,
      severity.required hseverity, code.required hcode, line.optional hline rfl,
      column.optional hcolumn rfl]

end Diagnostic

namespace Section

/-- The members of a section. -/
def row (s : Section) : Row :=
  [("kind", some (.string s.kind.keyword)), ("body", some (.string s.body)),
    ("span", some s.span.toJson)]

/-- A section is restored if its span is. -/
theorem restores {s : Section} (h : s.span.IsWord) : Restores ofJson? (depth + 2) s.toJson s := by
  have hkind : Restores (choice? SectionKind.choices) (depth + 1) (.string s.kind.keyword) s.kind :=
    .choice (by cases s.kind <;> rfl)
  have hbody := Restores.text (depth + 1) s.body
  have hspan := Span.restores depth h
  refine restores_record s.row (by simp [row]) ?_ fun members hrow => ?_
  · simp only [row, List.forall_mem_cons]
    exact ⟨hkind.fits_required, hbody.fits_required, hspan.fits_required, by simp⟩
  · simp only [row, List.forall_mem_cons] at hrow
    obtain ⟨kind, body, span, -⟩ := hrow
    simp only [ofJson?, fields?, Option.bind_eq_bind, Option.bind_some, kind.required hkind,
      body.required hbody, span.required hspan]

end Section

/-- Parameters that are left out are empty. -/
theorem Params.eq_empty {params : Params} (h : params.isEmpty = true) : params = .empty :=
  Dictionary.eq_of_entries (List.isEmpty_iff.mp h)

namespace Reference

/-- The members of a reference. -/
def row (r : Reference) : Row :=
  [("kind", some (.string r.kind)), ("target", r.target.map .string),
    ("body", some (.string r.body)),
    ("params", if r.params.isEmpty then none else some r.params.toJson),
    ("span", some r.span.toJson)]

/-- A reference is written as its row of members. -/
theorem toJson_eq (r : Reference) : r.toJson = .object r.row.members := by
  simp [toJson, row, Row.members, memberIf, Params.members]

/-- A reference is restored if its span is, also without a target and without parameters. -/
theorem restores {r : Reference} (h : r.span.IsWord) : Restores ofJson? (depth + 2) r.toJson r := by
  have hkind := Restores.text (depth + 1) r.kind
  have htarget : ∀ t ∈ r.target, Restores text? (depth + 1) (.string t) t := fun t _ => .text _ t
  have hbody := Restores.text (depth + 1) r.body
  have hparams := Restores.params depth r.params
  have hspan := Span.restores depth h
  rw [toJson_eq]
  refine restores_record _ (by simp [row]) ?_ fun members hrow => ?_
  · simp only [row, List.forall_mem_cons]
    exact ⟨hkind.fits_required, Restores.fits_optional htarget, hbody.fits_required,
      hparams.fits_defaulted, hspan.fits_required, by simp⟩
  · simp only [row, List.forall_mem_cons] at hrow
    obtain ⟨kind, target, body, params, span, -⟩ := hrow
    simp only [ofJson?, fields?, Option.bind_eq_bind, Option.bind_some, kind.required hkind,
      target.optional htarget rfl, body.required hbody, params.defaulted hparams Params.eq_empty,
      span.required hspan]

end Reference

namespace FormReference

/-- The members of a reference of a form. -/
def row (r : FormReference) : Row :=
  [("kind", some (.string r.kind)), ("type", some (.string r.type.name)),
    ("name", some (.string r.name)), ("target", r.target.map .string),
    ("body", some (.string r.body)),
    ("params", if r.params.isEmpty then none else some r.params.toJson)]

/-- A reference of a form is written as its row of members. -/
theorem toJson_eq (r : FormReference) : r.toJson = .object r.row.members := by
  simp [toJson, row, Row.members, memberIf, Params.members]

/-- A reference of a form is restored. -/
theorem restores (r : FormReference) : Restores ofJson? (depth + 2) r.toJson r := by
  have hkind := Restores.text (depth + 1) r.kind
  have htype : Restores (choice? ReferenceType.choices) (depth + 1) (.string r.type.name) r.type :=
    .choice (by cases r.type <;> rfl)
  have hname := Restores.text (depth + 1) r.name
  have htarget : ∀ t ∈ r.target, Restores text? (depth + 1) (.string t) t := fun t _ => .text _ t
  have hbody := Restores.text (depth + 1) r.body
  have hparams := Restores.params depth r.params
  rw [toJson_eq]
  refine restores_record _ (by simp [row]) ?_ fun members hrow => ?_
  · simp only [row, List.forall_mem_cons]
    exact ⟨hkind.fits_required, htype.fits_required, hname.fits_required,
      Restores.fits_optional htarget, hbody.fits_required, hparams.fits_defaulted, by simp⟩
  · simp only [row, List.forall_mem_cons] at hrow
    obtain ⟨kind, type, name, target, body, params, -⟩ := hrow
    simp only [ofJson?, fields?, Option.bind_eq_bind, Option.bind_some, kind.required hkind,
      type.required htype, name.required hname, target.optional htarget rfl, body.required hbody,
      params.defaulted hparams Params.eq_empty]

end FormReference

namespace Condition

/-- The members of a condition. A text has no left side, by which it is told from a comparison. -/
def row : Condition → Row
  | .comparison left operator right =>
    [("left", some (.string left)), ("operator", some (.string operator.text)),
      ("right", some (.string right))]
  | .raw text => [("left", none), ("raw", some (.string text))]

/-- A condition is restored, be it a text or a comparison. -/
theorem restores (c : Condition) : Restores ofJson? (depth + 1) c.toJson c := by
  cases c with
  | comparison left operator right =>
    have hleft := Restores.text depth left
    have hoperator : Restores (choice? Operator.choices) depth (.string operator.text) operator :=
      .choice (by cases operator <;> rfl)
    have hright := Restores.text depth right
    refine restores_record (row (.comparison left operator right)) (by simp [row]) ?_
      fun members hrow => ?_
    · simp only [row, List.forall_mem_cons]
      exact ⟨hleft.fits_required, hoperator.fits_required, hright.fits_required, by simp⟩
    · simp only [row, List.forall_mem_cons] at hrow
      obtain ⟨hasLeft, hasOperator, hasRight, -⟩ := hrow
      simp only [ofJson?, members?, comparison?, Option.bind_eq_bind, Option.bind_some,
        hasLeft.required hleft, hasOperator.required hoperator, hasRight.required hright,
        Option.some_or]
  | raw text =>
    have htext := Restores.text depth text
    refine restores_record (row (.raw text)) (by simp [row]) ?_ fun members hrow => ?_
    · simp only [row, List.forall_mem_cons]
      exact ⟨by simp, htext.fits_required, by simp⟩
    · simp only [row, List.forall_mem_cons] at hrow
      obtain ⟨noLeft, hasRaw, -⟩ := hrow
      simp only [ofJson?, members?, comparison?, Option.bind_eq_bind, Option.bind_some,
        noLeft.missing, Option.bind_none, Option.none_or, hasRaw.required htext, Option.map_some]

end Condition

namespace Block

/-- The members of a block. -/
def row : Block → Row
  | .conditional condition body otherwise =>
    [("type", some (.string "if".toList)), ("condition", some condition.toJson),
      ("then", some (.string body)),
      ("else", if otherwise.isEmpty then none else some (.string otherwise))]
  | .forEach item collection body =>
    [("type", some (.string "forEach".toList)), ("variable", some (.string item)),
      ("collection", some (.string collection)), ("body", some (.string body))]
  | .onError body =>
    [("type", some (.string "onError".toList)), ("body", some (.string body))]

/-- The members of a block are those of its row. -/
theorem members_eq (b : Block) : b.members = b.row.members := by
  cases b with
  | conditional => simp [members, row, Row.members, memberIf, memberText]
  | forEach | onError => rfl

/-- The members of a block are not nested too deeply. -/
theorem fits_row (b : Block) : ∀ entry ∈ b.row, ∀ j ∈ entry.2, Fits (depth + 1) j := by
  have htext (t : Text) := Restores.text (depth + 1) t
  cases b with
  | conditional condition body otherwise =>
    have hcondition := condition.restores depth
    simp only [row, List.forall_mem_cons]
    exact ⟨(htext _).fits_required, hcondition.fits_required, (htext _).fits_required,
      (htext _).fits_defaulted, by simp⟩
  | forEach item collection body =>
    simp only [row, List.forall_mem_cons]
    exact ⟨(htext _).fits_required, (htext _).fits_required, (htext _).fits_required,
      (htext _).fits_required, by simp⟩
  | onError body =>
    simp only [row, List.forall_mem_cons]
    exact ⟨(htext _).fits_required, (htext _).fits_required, by simp⟩

/-- A block is read from members that show its row; whether tags may be counted does not matter. -/
theorem ofFields?_of_shows {b : Block} {members : List (Text × Json)}
    (h : ∀ entry ∈ b.row, Shows members entry.1 entry.2) (counted : Bool) :
    ∃ place, tagged? counted tags (.object members) = some (place, .named members) ∧
      ofFields? place (.named members) = some b := by
  have htext (t : Text) := Restores.text 0 t
  cases b with
  | conditional condition body otherwise =>
    have hcondition := condition.restores 0
    simp only [row, List.forall_mem_cons] at h
    obtain ⟨hasType, hasCondition, hasThen, hasElse, -⟩ := h
    refine ⟨0, hasType.tagged rfl, ?_⟩
    simp only [ofFields?, Fields.atMost, Option.bind_eq_bind, Option.bind_some,
      hasCondition.required hcondition, hasThen.required (htext body),
      hasElse.defaulted (htext otherwise) List.isEmpty_iff.mp]
  | forEach item collection body =>
    simp only [row, List.forall_mem_cons] at h
    obtain ⟨hasType, hasVariable, hasCollection, hasBody, -⟩ := h
    refine ⟨1, hasType.tagged rfl, ?_⟩
    simp only [ofFields?, Fields.atMost, Option.bind_eq_bind, Option.bind_some,
      hasVariable.required (htext item), hasCollection.required (htext collection),
      hasBody.required (htext body)]
  | onError body =>
    simp only [row, List.forall_mem_cons] at h
    obtain ⟨hasType, hasBody, -⟩ := h
    refine ⟨2, hasType.tagged rfl, ?_⟩
    simp only [ofFields?, Fields.atMost, Option.bind_eq_bind, Option.bind_some,
      hasBody.required (htext body)]

/-- A block is restored, whichever statement opened it. -/
theorem restores (b : Block) : Restores ofJson? (depth + 2) b.toJson b := by
  rw [toJson, members_eq]
  refine restores_record _ (by cases b <;> simp [row]) (b.fits_row depth) fun members hrow => ?_
  obtain ⟨place, htagged, hfields⟩ := ofFields?_of_shows hrow false
  simp only [ofJson?, htagged, Option.bind_eq_bind, Option.bind_some, hfields]

end Block

namespace BlockStatement

/-- The members of a block and its span. -/
def row (s : BlockStatement) : Row :=
  s.block.row ++ [("span", some s.span.toJson)]

/-- A block with its span is written as its row of members. -/
theorem toJson_eq (s : BlockStatement) : s.toJson = .object s.row.members := by
  rw [toJson, Block.members_eq, row, Row.members_append]
  rfl

/-- A block with its span is restored if the span is. -/
theorem restores {s : BlockStatement} (h : s.span.IsWord) :
    Restores ofJson? (depth + 2) s.toJson s := by
  have hspan := Span.restores depth h
  have hnames : (s.row.map (·.1)).Nodup := by
    unfold row
    cases s.block <;> simp [Block.row]
  rw [toJson_eq]
  refine restores_record _ hnames ?_ fun members hrow => ?_
  · rw [row, List.forall_mem_append]
    exact ⟨s.block.fits_row depth, by simpa using hspan.fits⟩
  · rw [row, List.forall_mem_append] at hrow
    obtain ⟨hblock, hlast⟩ := hrow
    obtain ⟨place, htagged, hfields⟩ := Block.ofFields?_of_shows hblock true
    have span : Shows members "span" (some s.span.toJson) := hlast _ List.mem_cons_self
    simp only [ofJson?, members?, htagged, Option.bind_eq_bind, Option.bind_some, hfields,
      span.required hspan]

end BlockStatement

namespace ApiTarget

/-- The members of a target. -/
def row : ApiTarget → Row
  | .service owner endpoint =>
    [("type", some (.string "service".toList)), ("service", some (.string owner)),
      ("endpoint", some (.string endpoint))]
  | .reference kind =>
    [("type", some (.string "reference".toList)), ("kind", some (.string kind))]

/-- The target of a call is restored. -/
theorem restores (t : ApiTarget) (counted : Bool) :
    Restores (ofJson? counted) (depth + 1) t.toJson t := by
  have htype (tag : Text) := Restores.text depth tag
  cases t with
  | service owner endpoint =>
    have howner := Restores.text depth owner
    have hendpoint := Restores.text depth endpoint
    refine restores_record (row (.service owner endpoint)) (by simp [row]) ?_
      fun members hrow => ?_
    · simp only [row, List.forall_mem_cons]
      exact ⟨(htype _).fits_required, howner.fits_required, hendpoint.fits_required, by simp⟩
    · simp only [row, List.forall_mem_cons] at hrow
      obtain ⟨hasType, hasOwner, hasEndpoint, -⟩ := hrow
      have htag : tagged? counted ["service".toList, "reference".toList] (.object members) =
          some (0, .named members) := hasType.tagged rfl
      simp only [ofJson?, htag, Option.bind_eq_bind, Option.bind_some, if_true, Fields.atMost,
        hasOwner.required howner, hasEndpoint.required hendpoint]
  | reference kind =>
    have hkind := Restores.text depth kind
    refine restores_record (row (.reference kind)) (by simp [row]) ?_ fun members hrow => ?_
    · simp only [row, List.forall_mem_cons]
      exact ⟨(htype _).fits_required, hkind.fits_required, by simp⟩
    · simp only [row, List.forall_mem_cons] at hrow
      obtain ⟨hasType, hasKind, -⟩ := hrow
      have htag : tagged? counted ["service".toList, "reference".toList] (.object members) =
          some (1, .named members) := hasType.tagged rfl
      simp only [ofJson?, htag, Option.bind_eq_bind, Option.bind_some, Nat.one_ne_zero, if_false,
        Fields.atMost, hasKind.required hkind]

end ApiTarget

namespace ApiCall

/-- The members of a call. -/
def row (c : ApiCall) : Row :=
  [("target", some c.target.toJson),
    ("payload", if c.payload.isEmpty then none else some (.string c.payload)),
    ("params", if c.params.isEmpty then none else some c.params.toJson)]

/-- The members of a call are those of its row. -/
theorem members_eq (c : ApiCall) : c.members = c.row.members := by
  simp [members, row, Row.members, memberIf, memberText, Params.members]

/-- The members of a call are not nested too deeply. -/
theorem fits_row (c : ApiCall) : ∀ entry ∈ c.row, ∀ j ∈ entry.2, Fits (depth + 1) j := by
  have htarget := c.target.restores depth false
  have hpayload := Restores.text (depth + 1) c.payload
  have hparams := Restores.params depth c.params
  simp only [row, List.forall_mem_cons]
  exact ⟨htarget.fits_required, hpayload.fits_defaulted, hparams.fits_defaulted, by simp⟩

/-- A call is read from members that show its row; whether tags may be counted does not matter. -/
theorem ofFields?_of_shows {c : ApiCall} {members : List (Text × Json)}
    (h : ∀ entry ∈ c.row, Shows members entry.1 entry.2) (counted : Bool) :
    ofFields? counted (.named members) = some c := by
  have htarget := c.target.restores 0 counted
  have hpayload := Restores.text 0 c.payload
  have hparams := Restores.params 0 c.params
  simp only [row, List.forall_mem_cons] at h
  obtain ⟨target, payload, params, -⟩ := h
  simp only [ofFields?, Option.bind_eq_bind, Option.bind_some, target.required htarget,
    payload.defaulted hpayload List.isEmpty_iff.mp, params.defaulted hparams Params.eq_empty]

/-- A call is restored, with a payload and without one. -/
theorem restores (c : ApiCall) : Restores ofJson? (depth + 2) c.toJson c := by
  rw [toJson, members_eq]
  refine restores_record _ (by simp [row]) (c.fits_row depth) fun members hrow => ?_
  simp only [ofJson?, fields?, Option.bind_eq_bind, Option.bind_some,
    ofFields?_of_shows hrow false]

end ApiCall

namespace ApiCallStatement

/-- The members of a call and its span. -/
def row (s : ApiCallStatement) : Row :=
  s.call.row ++ [("span", some s.span.toJson)]

/-- A call with its span is written as its row of members. -/
theorem toJson_eq (s : ApiCallStatement) : s.toJson = .object s.row.members := by
  rw [toJson, ApiCall.members_eq, row, Row.members_append]
  rfl

/-- A call with its span is restored if the span is. -/
theorem restores {s : ApiCallStatement} (h : s.span.IsWord) :
    Restores ofJson? (depth + 2) s.toJson s := by
  have hspan := Span.restores depth h
  rw [toJson_eq]
  refine restores_record _ (by simp [row, ApiCall.row]) ?_ fun members hrow => ?_
  · rw [row, List.forall_mem_append]
    exact ⟨s.call.fits_row depth, by simpa using hspan.fits⟩
  · rw [row, List.forall_mem_append] at hrow
    obtain ⟨hcall, hlast⟩ := hrow
    have span : Shows members "span" (some s.span.toJson) := hlast _ List.mem_cons_self
    simp only [ofJson?, members?, Option.bind_eq_bind, Option.bind_some,
      ApiCall.ofFields?_of_shows hcall true, span.required hspan]

end ApiCallStatement

namespace Document

/-- Whether the places in a document have numbers of 64 bits. -/
structure IsWord (d : Document) : Prop where
  /-- Those of the sections. -/
  sections : ∀ s ∈ d.sections, s.span.IsWord
  /-- Those of the references. -/
  references : ∀ r ∈ d.references, r.span.IsWord
  /-- Those of the blocks. -/
  blocks : ∀ s ∈ d.blocks, s.span.IsWord
  /-- Those of the calls. -/
  apiCalls : ∀ s ∈ d.apiCalls, s.span.IsWord

/-- The members of a document. -/
def row (d : Document) : Row :=
  [("sections", some (.array (d.sections.map Section.toJson))),
    ("references", some (.array (d.references.map Reference.toJson))),
    ("blocks",
      if d.blocks.isEmpty then none else some (.array (d.blocks.map BlockStatement.toJson))),
    ("apiCalls",
      if d.apiCalls.isEmpty then none else some (.array (d.apiCalls.map ApiCallStatement.toJson)))]

/-- A document is written as its row of members. -/
theorem toJson_eq (d : Document) : d.toJson = .object d.row.members := by
  simp [toJson, row, Row.members, memberIf, memberList]

/-- A document with 64-bit places is restored, part by part. -/
theorem restores {d : Document} (h : d.IsWord) : Restores ofJson? (depth + 4) d.toJson d := by
  have hsections : Restores (list? Section.ofJson?) (depth + 3) _ _ :=
    .list fun s hs => Section.restores _ (h.sections s hs)
  have hreferences : Restores (list? Reference.ofJson?) (depth + 3) _ _ :=
    .list fun r hr => Reference.restores _ (h.references r hr)
  have hblocks : Restores (list? BlockStatement.ofJson?) (depth + 3) _ _ :=
    .list fun s hs => BlockStatement.restores _ (h.blocks s hs)
  have hcalls : Restores (list? ApiCallStatement.ofJson?) (depth + 3) _ _ :=
    .list fun s hs => ApiCallStatement.restores _ (h.apiCalls s hs)
  rw [toJson_eq]
  refine restores_record _ (by simp [row]) ?_ fun members hrow => ?_
  · simp only [row, List.forall_mem_cons]
    exact ⟨hsections.fits_required, hreferences.fits_required, hblocks.fits_defaulted,
      hcalls.fits_defaulted, by simp⟩
  · simp only [row, List.forall_mem_cons] at hrow
    obtain ⟨sections, references, blocks, apiCalls, -⟩ := hrow
    simp only [ofJson?, fields?, Option.bind_eq_bind, Option.bind_some,
      sections.required hsections, references.required hreferences,
      blocks.defaulted hblocks List.isEmpty_iff.mp, apiCalls.defaulted hcalls List.isEmpty_iff.mp]

end Document

namespace Form

/-- The members of a form. -/
def row (f : Form) : Row :=
  [("type", some (.string f.type)), ("formatVersion", some (.string f.version)),
    ("task", some (.string f.task)), ("action", some (.string f.action)),
    ("goal", some (.string f.goal)),
    ("refs", some (.array (f.references.map FormReference.toJson))),
    ("blocks", if f.blocks.isEmpty then none else some (.array (f.blocks.map Block.toJson))),
    ("apiCalls",
      if f.apiCalls.isEmpty then none else some (.array (f.apiCalls.map ApiCall.toJson)))]

/-- The members of a form are those of its row. -/
theorem members_eq (f : Form) : f.members = f.row.members := by
  simp [members, row, Row.members, memberIf, memberList]

/-- A form is restored, part by part. -/
theorem restores (f : Form) : Restores ofJson? (depth + 4) f.toJson f := by
  have htext (t : Text) := Restores.text (depth + 3) t
  have hreferences : Restores (list? FormReference.ofJson?) (depth + 3) _ _ :=
    .list fun r (_ : r ∈ f.references) => r.restores _
  have hblocks : Restores (list? Block.ofJson?) (depth + 3) _ _ :=
    .list fun b (_ : b ∈ f.blocks) => b.restores _
  have hcalls : Restores (list? ApiCall.ofJson?) (depth + 3) _ _ :=
    .list fun c (_ : c ∈ f.apiCalls) => c.restores _
  rw [toJson, members_eq]
  refine restores_record _ (by simp [row]) ?_ fun members hrow => ?_
  · simp only [row, List.forall_mem_cons]
    exact ⟨(htext _).fits_required, (htext _).fits_required, (htext _).fits_required,
      (htext _).fits_required, (htext _).fits_required, hreferences.fits_required,
      hblocks.fits_defaulted, hcalls.fits_defaulted, by simp⟩
  · simp only [row, List.forall_mem_cons] at hrow
    obtain ⟨type, version, task, action, goal, references, blocks, apiCalls, -⟩ := hrow
    simp only [ofJson?, fields?, Option.bind_eq_bind, Option.bind_some, type.required (htext _),
      version.required (htext _), task.required (htext _), action.required (htext _),
      goal.required (htext _), references.required hreferences,
      blocks.defaulted hblocks List.isEmpty_iff.mp, apiCalls.defaulted hcalls List.isEmpty_iff.mp]

end Form

/-- Whether a decoder gives a value back from all its written forms. -/
structure Json.RoundTrips {α : Type} (decode : Json → Option α) (j : Json) (a : α) : Prop where
  /-- From the JSON value. -/
  value : decode j = some a
  /-- From the JSON value with the members of all objects sorted. -/
  sorted : decode j.sort = some a
  /-- From the text on one line. -/
  compact : (ofText? (compact j)).bind decode = some a
  /-- From the indented text. -/
  pretty : (ofText? (pretty j)).bind decode = some a

/-- What is restored at the depth that the reader allows makes all round trips. -/
theorem Json.Restores.roundTrips {α : Type} {decode : Json → Option α} {j : Json} {a : α}
    (h : Restores decode maxDepth j a) : RoundTrips decode j a where
  value := h.decode_eq
  sorted := h.decode_sort
  compact := by
    rw [h.fits.reads_compact.ofText?]
    exact h.decode_sort
  pretty := by
    rw [Json.pretty, (h.fits.reads_indented 0).ofText?]
    exact h.decode_sort

/-- Every document, every form and every diagnostic is given back from its written forms, if the
places in it have numbers of 64 bits. -/
theorem values_restored :
    (∀ d : Document, d.IsWord → RoundTrips Document.ofJson? d.toJson d) ∧
    (∀ f : Form, RoundTrips Form.ofJson? f.toJson f) ∧
    ∀ x : Diagnostic, x.IsWord → RoundTrips Diagnostic.ofJson? x.toJson x :=
  ⟨fun _ h => (Document.restores 123 h).roundTrips, fun f => (f.restores 123).roundTrips,
    fun _ h => (Diagnostic.restores 126 h).roundTrips⟩

/-- A span that ends at the last place there is. -/
def Span.longest : Span :=
  ⟨.start, ⟨maxWord, maxWord⟩⟩

/-- A document with blocks, conditions and targets of each kind, and members that are left out. -/
def Document.specimen : Document :=
  { sections := [⟨.task, "say \"hi\"\n\tnow".toList, .longest⟩, ⟨.goal, [], .longest⟩]
    references :=
      [⟨"db".toList, some "users".toList, "limit: 3".toList, Params.ofBody "limit: 3".toList,
         .longest⟩,
       ⟨[], none, "\u0007\\".toList, .empty, .longest⟩]
    blocks :=
      [⟨.conditional (.comparison "a".toList .ge "1".toList) "b".toList "c".toList, .longest⟩,
       ⟨.conditional (.raw "ready".toList) "b".toList [], .longest⟩,
       ⟨.forEach "x".toList "xs".toList "b".toList, .longest⟩, ⟨.onError [], .longest⟩]
    apiCalls :=
      [⟨⟨.service "mail".toList "send".toList, "to: me".toList, Params.ofBody "to: me".toList⟩,
         .longest⟩,
       ⟨⟨.reference "tool".toList, [], .empty⟩, .longest⟩] }

/-- The specimen is given back, its form too, and a report at the last place there is. -/
theorem values_restored_specimen :
    (Document.specimen.IsWord ∧
      RoundTrips Document.ofJson? Document.specimen.toJson Document.specimen) ∧
    RoundTrips Form.ofJson? Document.specimen.lower.toJson Document.specimen.lower ∧
    RoundTrips Diagnostic.ofJson?
      (Diagnostic.toJson ⟨"late".toList, .warning, "W_LATE".toList, some maxWord, none⟩)
      ⟨"late".toList, .warning, "W_LATE".toList, some maxWord, none⟩ := by
  have hspan : Span.longest.IsWord := ⟨by decide, by decide, by decide, by decide⟩
  have hword : Document.specimen.IsWord := by
    constructor <;> simp [Document.specimen, hspan]
  obtain ⟨hdocuments, hforms, hdiagnostics⟩ := values_restored
  exact ⟨⟨hword, hdocuments _ hword⟩, hforms _, hdiagnostics _ ⟨by simp, by simp⟩⟩

end PromptScript
