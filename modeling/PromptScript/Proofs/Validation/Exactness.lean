import Mathlib.Data.List.Basic
import PromptScript.Form.Basic
import PromptScript.Proofs.Text.Trim
import PromptScript.Proofs.Validation.Rules

/-!
# The errors of validation

What is wrong with a document, said without the rules: a kind of section that is missing or comes
again, a section without text, a kind that is no kind. Validation reports these faults and nothing
else as errors, one by one and in a fixed order, so a document passes exactly if it is fit to run.
Lowering a document that is fit leaves out nothing but places.
-/

namespace PromptScript

/-- Whether a text can be a kind: it has characters, and all of them may stand in a kind. -/
def Text.IsKind (t : Text) : Prop :=
  t ≠ [] ∧ ∀ c ∈ t, isKindChar c = true

instance (t : Text) : Decidable t.IsKind :=
  inferInstanceAs (Decidable (_ ∧ _))

/-- The rule takes the kinds for valid that are kinds. -/
theorem isValidKind_iff (kind : Text) : isValidKind kind = true ↔ Text.IsKind kind := by
  simp [isValidKind, Text.IsKind]

namespace Document

/-- A fault of a document, at the span of what is at fault. -/
inductive Fault where
  /-- There is no section of a kind. -/
  | missing (kind : SectionKind)
  /-- A section comes after another of its kind. -/
  | repeated (kind : SectionKind) (span : Span)
  /-- A section holds nothing but white space. -/
  | blank (kind : SectionKind) (span : Span)
  /-- A reference or a call names what is no kind. -/
  | badKind (kind : Text) (span : Span)
  deriving DecidableEq, Repr

/-- The report of a fault. -/
def Fault.diagnostic : Fault → Diagnostic
  | .missing kind =>
    ⟨"Missing ".toList ++ kind.keyword, .error, "E_".toList ++ kind.keyword, none, none⟩
  | .repeated kind span =>
    ⟨"Duplicate ".toList ++ kind.keyword ++ " section".toList, .error,
      "E_DUP_".toList ++ kind.keyword, some span.start.line, some span.start.column⟩
  | .blank kind span =>
    ⟨"Empty ".toList ++ kind.keyword ++ " section".toList, .error,
      "E_EMPTY_".toList ++ kind.keyword, some span.start.line, some span.start.column⟩
  | .badKind kind span =>
    ⟨"Invalid reference kind '".toList ++ kind ++ ['\''], .error, "E_REF_KIND".toList,
      some span.start.line, some span.start.column⟩

/-- The sections of a kind that come after another of the kind, in order. -/
def repeats (d : Document) (kind : SectionKind) : List Section :=
  (d.sections.zipIdx.filter fun entry =>
    entry.1.kind == kind && (d.sections.take entry.2).any (·.kind == kind)).map (·.1)

/-- What is wrong with the number of sections of a kind. -/
def sectionFaults (d : Document) (kind : SectionKind) : List Fault :=
  if d.sections.any (·.kind == kind) then (d.repeats kind).map fun s => .repeated kind s.span
  else [.missing kind]

/-- What is wrong with the target of a call. -/
def targetFault? (c : ApiCallStatement) : Option Fault :=
  match c.call.target with
  | .reference kind => if kind.IsKind then none else some (.badKind kind c.span)
  | .service _ _ => none

/-- All that is wrong with a document: the number of sections of each kind, sections without text,
the kinds of references, and the kinds that calls name. -/
def faults (d : Document) : List Fault :=
  [SectionKind.task, .action, .goal].flatMap d.sectionFaults ++
    ((d.sections.filter fun s => s.body.all Text.isSpace).map fun s =>
      .blank s.kind s.span) ++
    ((d.references.filter fun r => ¬r.kind.IsKind).map fun r => .badKind r.kind r.span) ++
    d.apiCalls.filterMap targetFault?

/-- Whether a document is fit to run. -/
structure IsFit (d : Document) : Prop where
  /-- Each kind of section occurs exactly once. -/
  once : ∀ kind, (d.sections.filter (·.kind == kind)).length = 1
  /-- Each section has a character that is not white space. -/
  text : ∀ s ∈ d.sections, ∃ c ∈ s.body, Text.isSpace c = false
  /-- References are of kinds. -/
  references : ∀ r ∈ d.references, r.kind.IsKind
  /-- Calls of a reference kind name a kind. -/
  calls : ∀ c ∈ d.apiCalls, ∀ kind, c.call.target = .reference kind → kind.IsKind

/-- Of sections after others, those that come after one of their kind are all of the kind, or all
but the first. -/
theorem filter_zipIdx (kind : SectionKind) (earlier ss : List Section) :
    ((ss.zipIdx earlier.length).filter fun entry =>
      entry.1.kind == kind && ((earlier ++ ss).take entry.2).any (·.kind == kind)).map (·.1) =
    if earlier.any (·.kind == kind) then ss.filter (·.kind == kind)
    else (ss.filter (·.kind == kind)).tail := by
  induction ss generalizing earlier with
  | nil => simp
  | cons s ss ih =>
    have hnext := ih (earlier ++ [s])
    have hseen : (earlier ++ s :: ss).take earlier.length = earlier := by simp
    rw [List.append_assoc, List.singleton_append, List.length_append, List.length_singleton,
      List.any_append] at hnext
    rw [List.zipIdx_cons, List.filter_cons, List.filter_cons, hseen]
    cases hkind : s.kind == kind with
    | true => cases hearlier : earlier.any (·.kind == kind) <;> simp_all
    | false => simpa [hkind] using hnext

/-- The sections of a kind that come again are all but the first. -/
theorem repeats_eq (d : Document) (kind : SectionKind) :
    d.repeats kind = (d.sectionsOf kind).tail := by
  simpa [repeats, sectionsOf] using filter_zipIdx kind [] d.sections

/-- A kind occurs in a document unless the document has no sections of it. -/
theorem any_sections (d : Document) (kind : SectionKind) :
    d.sections.any (·.kind == kind) = !(d.sectionsOf kind).isEmpty := by
  rw [sectionsOf, Bool.eq_iff_iff]
  simp

end Document

namespace Rule

open Document (Fault)

variable (d : Document)

/-- What is reported of the sections of a kind is what is wrong with their number. -/
theorem sectionReports_eq (kind : SectionKind) :
    sectionReports d kind = (d.sectionFaults kind).map Fault.diagnostic := by
  rw [sectionReports, Document.sectionFaults, Document.any_sections, Document.repeats_eq]
  cases hsections : d.sectionsOf kind with
  | nil => rfl
  | cons s others =>
    have hkinds : ∀ t ∈ others, t.kind = kind := by
      intro t ht
      have hmem : t ∈ d.sectionsOf kind := by simp [hsections, ht]
      simpa using (List.mem_filter.mp hmem).2
    simp only [List.tail_cons, List.isEmpty_cons, Bool.not_false, if_true, List.map_map]
    refine List.map_congr_left fun t ht => ?_
    rw [duplicate, hkinds t ht]
    rfl

/-- The rule about blank sections reports the sections without text. -/
theorem check_emptySection (registry : Option Registry) :
    check d registry .emptySection =
      ((d.sections.filter fun s => s.body.all Text.isSpace).map fun s =>
        Fault.blank s.kind s.span).map Fault.diagnostic := by
  have hblank : ∀ s ∈ d.sections, (Text.trim s.body).isEmpty = s.body.all Text.isSpace :=
    fun s _ => Bool.eq_iff_iff.mpr (List.isEmpty_iff.trans Text.trim_eq_nil_iff)
  rw [check, List.filter_congr hblank, List.map_map]
  rfl

/-- The rule about kinds reports the kinds of references, then those that calls name. -/
theorem check_referenceKind (registry : Option Registry) :
    check d registry .referenceKind =
      (((d.references.filter fun r => ¬r.kind.IsKind).map fun r => Fault.badKind r.kind r.span) ++
        d.apiCalls.filterMap Document.targetFault?).map Fault.diagnostic := by
  have hvalid (kind : Text) : isValidKind kind = decide kind.IsKind := by
    rw [Bool.eq_iff_iff, isValidKind_iff, decide_eq_true_iff]
  rw [check, kinds, List.filter_append, List.map_append, List.map_append]
  congr 1
  · simp only [List.filter_map, List.map_map, Function.comp_def, hvalid, decide_not]
    rfl
  · rw [List.filter_filterMap, List.map_filterMap, List.map_filterMap]
    refine List.filterMap_congr fun c _ => ?_
    unfold Document.targetFault?
    cases c.call.target with
    | service owner endpoint => rfl
    | reference kind =>
      by_cases hkind : kind.IsKind
      · simp [hvalid, hkind]
      · simp [hvalid, hkind]
        rfl

end Rule

namespace Document

/-- The errors of validation are the faults of the document. -/
theorem errors_eq (d : Document) (registry : Option Registry) :
    (Validation.ofDocument d registry).errors = d.faults.map Fault.diagnostic := by
  have hsections : Rule.check d none .requiredSections =
      ([SectionKind.task, .action, .goal].flatMap d.sectionFaults).map Fault.diagnostic := by
    rw [Rule.check, List.map_flatMap]
    exact List.flatMap_congr fun kind _ => Rule.sectionReports_eq d kind
  have hunresolved : Rule.check d none .unresolvedReference = [] := rfl
  rw [Validation.errors_ofDocument]
  change [Rule.requiredSections, .emptySection, .referenceKind, .unresolvedReference].flatMap
    (Rule.check d none) = _
  simp only [List.flatMap_cons, List.flatMap_nil, hsections, Rule.check_emptySection,
    Rule.check_referenceKind, hunresolved, List.append_nil, faults, List.map_append,
    List.append_assoc]

/-- Nothing is wrong with the number of sections of a kind if there is one of them. -/
theorem sectionFaults_eq_nil_iff (d : Document) (kind : SectionKind) :
    d.sectionFaults kind = [] ↔ (d.sections.filter (·.kind == kind)).length = 1 := by
  rw [sectionFaults, any_sections, repeats_eq]
  change _ ↔ (d.sectionsOf kind).length = 1
  cases d.sectionsOf kind with
  | nil => simp
  | cons s others => simp

/-- Nothing is wrong with the target of a call if it is an endpoint or names a kind. -/
theorem targetFault?_eq_none_iff (c : ApiCallStatement) :
    targetFault? c = none ↔ ∀ kind, c.call.target = .reference kind → kind.IsKind := by
  unfold targetFault?
  cases c.call.target with
  | service owner endpoint => simp
  | reference kind => simp

/-- A document is fit to run exactly if nothing is wrong with it. -/
theorem faults_eq_nil_iff (d : Document) : d.faults = [] ↔ d.IsFit := by
  have hsections : [SectionKind.task, .action, .goal].flatMap d.sectionFaults = [] ↔
      ∀ kind, (d.sections.filter (·.kind == kind)).length = 1 := by
    simp only [List.flatMap_eq_nil_iff, sectionFaults_eq_nil_iff]
    exact ⟨fun h kind => h kind (by cases kind <;> simp), fun h kind _ => h kind⟩
  have htext : (d.sections.filter fun s => s.body.all Text.isSpace) = [] ↔
      ∀ s ∈ d.sections, ∃ c ∈ s.body, Text.isSpace c = false := by
    simp [List.filter_eq_nil_iff]
  have hreferences : (d.references.filter fun r => ¬r.kind.IsKind) = [] ↔
      ∀ r ∈ d.references, r.kind.IsKind := by
    simp [List.filter_eq_nil_iff]
  have hcalls : d.apiCalls.filterMap targetFault? = [] ↔
      ∀ c ∈ d.apiCalls, ∀ kind, c.call.target = .reference kind → kind.IsKind := by
    simp only [List.filterMap_eq_nil_iff, targetFault?_eq_none_iff]
  rw [faults, List.append_eq_nil_iff, List.append_eq_nil_iff, List.append_eq_nil_iff,
    List.map_eq_nil_iff, List.map_eq_nil_iff, hsections, htext, hreferences, hcalls]
  constructor
  · rintro ⟨⟨⟨honce, htext⟩, hreferences⟩, hcalls⟩
    exact ⟨honce, htext, hreferences, hcalls⟩
  · intro h
    exact ⟨⟨⟨h.once, h.text⟩, h.references⟩, h.calls⟩

/-- A document passes validation exactly if it is fit to run. -/
theorem ok_iff_isFit (d : Document) (registry : Option Registry) :
    (Validation.ofDocument d registry).ok = true ↔ d.IsFit := by
  rw [← faults_eq_nil_iff, Validation.ofDocument, Validation.ok_ofDiagnostics, List.isEmpty_iff]
  change (Validation.ofDocument d registry).errors = [] ↔ _
  rw [errors_eq, List.map_eq_nil_iff]

end Document

/-- Whether a form has all that a document has but the places: its texts are the bodies of the only
three sections, and its references, blocks and calls are those of the document, in order. -/
structure Form.Keeps (f : Form) (d : Document) : Prop where
  /-- The document has the three sections, in some order, and no other. -/
  sections : (d.sections.map fun s => (s.kind, s.body)).Perm
    [(.task, f.task), (.action, f.action), (.goal, f.goal)]
  /-- Each text has a character that is not white space. -/
  text : ∀ kind, ∃ c ∈ f.textOf kind, Text.isSpace c = false
  /-- Each reference has its kind, its target, its body and its parameters. -/
  references : f.references.map (fun r => (r.kind, r.target, r.body, r.params)) =
    d.references.map fun r => (r.kind, r.target, r.body, r.params)
  /-- The blocks are those of the document. -/
  blocks : f.blocks = d.blocks.map (·.block)
  /-- The calls are those of the document. -/
  apiCalls : f.apiCalls = d.apiCalls.map (·.call)

namespace Document

/-- Sections are those of the three kinds. -/
theorem perm_filter_kind (ss : List Section) :
    ss.Perm (ss.filter (·.kind == .task) ++ (ss.filter (·.kind == .action) ++
      ss.filter (·.kind == .goal))) := by
  induction ss with
  | nil => rfl
  | cons s ss ih =>
    have hmiddle := ih.cons s
    cases hkind : s.kind with
    | task => simpa [hkind] using hmiddle
    | action => simpa [hkind] using hmiddle.trans List.perm_middle.symm
    | goal =>
      rw [← List.append_assoc] at hmiddle
      simpa [hkind] using hmiddle.trans List.perm_middle.symm

variable {d : Document}

/-- Of a document that is fit, each text of the form is the body of the only section of its kind. -/
theorem IsFit.exists_section (h : d.IsFit) (kind : SectionKind) :
    ∃ s ∈ d.sections, d.sections.filter (·.kind == kind) = [s] ∧ s.kind = kind ∧
      d.lower.textOf kind = s.body := by
  obtain ⟨s, hs⟩ := List.length_eq_one_iff.mp (h.once kind)
  have hmem : s ∈ d.sections.filter (·.kind == kind) := by simp [hs]
  obtain ⟨hsection, hkind⟩ := List.mem_filter.mp hmem
  have htext : d.sectionText kind = s.body := by
    rw [sectionText, section?, sectionsOf, hs]
    rfl
  refine ⟨s, hsection, hs, beq_iff_eq.mp hkind, ?_⟩
  cases kind <;> exact htext

/-- Lowering a document that is fit leaves out nothing but places. -/
theorem IsFit.keeps (h : d.IsFit) : d.lower.Keeps d where
  sections := by
    obtain ⟨t, -, htask, hkind, htext⟩ := h.exists_section .task
    obtain ⟨a, -, haction, hkind', htext'⟩ := h.exists_section .action
    obtain ⟨g, -, hgoal, hkind'', htext''⟩ := h.exists_section .goal
    have hperm := (perm_filter_kind d.sections).map fun s => (s.kind, s.body)
    rw [htask, haction, hgoal] at hperm
    have htexts : [(SectionKind.task, t.body), (.action, a.body), (.goal, g.body)] =
        [(.task, d.lower.task), (.action, d.lower.action), (.goal, d.lower.goal)] := by
      rw [← htext, ← htext', ← htext'']
      rfl
    rw [← htexts]
    simpa [hkind, hkind', hkind''] using hperm
  text kind := by
    obtain ⟨s, hs, -, -, htext⟩ := h.exists_section kind
    rw [htext]
    exact h.text s hs
  references := by
    rw [lower, List.map_map]
    rfl
  blocks := rfl
  apiCalls := rfl

end Document

end PromptScript
