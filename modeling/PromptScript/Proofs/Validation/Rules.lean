import PromptScript.Validation

/-!
# What the rules report

Three rules look at the document alone and report errors only. The fourth looks at a registry and
reports warnings only, so a registry adds warnings behind the errors and never changes whether a
document is fit to run.
-/

namespace PromptScript

namespace Rule

variable {d : Document} {registry : Option Registry} {rule : Rule} {x : Diagnostic}

/-- The rules that look at the document alone, in the order in which they are applied. -/
def structural : List Rule :=
  [.requiredSections, .emptySection, .referenceKind]

/-- How serious the reports of a rule are. -/
def severity : Rule → Severity
  | .unresolvedReference => .warning
  | _ => .error

/-- All reports of a rule are equally serious. -/
theorem severity_of_mem_check (h : x ∈ check d registry rule) : x.severity = rule.severity := by
  cases rule with
  | requiredSections =>
    obtain ⟨kind, -, hx⟩ := List.mem_flatMap.mp h
    unfold sectionReports at hx
    split at hx
    · cases List.mem_singleton.mp hx
      rfl
    · obtain ⟨s, -, rfl⟩ := List.mem_map.mp hx
      rfl
  | emptySection =>
    obtain ⟨s, -, rfl⟩ := List.mem_map.mp h
    rfl
  | referenceKind =>
    obtain ⟨entry, -, rfl⟩ := List.mem_map.mp h
    rfl
  | unresolvedReference =>
    cases registry with
    | none => cases h
    | some registry =>
      obtain ⟨r, -, rfl⟩ := List.mem_map.mp h
      rfl

/-- The codes that a rule reports under. -/
def codes : Rule → List Text
  | .requiredSections =>
    SectionKind.all.flatMap fun kind => ["E_".toList ++ kind.keyword, "E_DUP_".toList ++ kind.keyword]
  | .emptySection => SectionKind.all.map fun kind => "E_EMPTY_".toList ++ kind.keyword
  | .referenceKind => ["E_REF_KIND".toList]
  | .unresolvedReference => ["W_UNRESOLVED_REF".toList]

/-- A rule reports under its codes only. -/
theorem code_mem_of_mem_check (h : x ∈ check d registry rule) : x.code ∈ rule.codes := by
  cases rule with
  | requiredSections =>
    obtain ⟨kind, hkind, hx⟩ := List.mem_flatMap.mp h
    refine List.mem_flatMap.mpr ⟨kind, hkind, ?_⟩
    unfold sectionReports at hx
    split at hx
    · cases List.mem_singleton.mp hx
      exact List.mem_cons_self
    · rename_i s others hsections
      obtain ⟨other, hother, rfl⟩ := List.mem_map.mp hx
      have hof : other ∈ d.sectionsOf kind := by rw [hsections]; exact List.mem_cons_of_mem s hother
      have hsame : other.kind = kind := by simpa using (List.mem_filter.mp hof).2
      rw [← hsame]
      exact List.mem_cons_of_mem _ List.mem_cons_self
  | emptySection =>
    obtain ⟨s, -, rfl⟩ := List.mem_map.mp h
    exact List.mem_map.mpr ⟨s.kind, by cases s.kind <;> decide, rfl⟩
  | referenceKind =>
    obtain ⟨entry, -, rfl⟩ := List.mem_map.mp h
    exact List.mem_cons_self
  | unresolvedReference =>
    cases registry with
    | none => cases h
    | some registry =>
      obtain ⟨r, -, rfl⟩ := List.mem_map.mp h
      exact List.mem_cons_self

/-- The rules that look at the document alone report errors. -/
theorem severity_of_mem_structural (h : rule ∈ structural) : rule.severity = .error := by
  cases rule with
  | unresolvedReference => exact absurd h (by decide)
  | _ => rfl

/-- If the rule about kinds reports nothing, the kinds of all references are well formed. -/
theorem isValidKind_of_check_eq_nil (h : check d registry .referenceKind = []) {r : Reference}
    (hr : r ∈ d.references) : isValidKind r.kind = true := by
  have hfilter := List.filter_eq_nil_iff.mp (List.map_eq_nil_iff.mp h) (r.kind, r.span)
    (List.mem_append_left _ (List.mem_map_of_mem hr))
  simpa using hfilter

end Rule

namespace Validation

/-- Nothing but errors counts. -/
theorem ok_ofDiagnostics (diagnostics : List Diagnostic) :
    (ofDiagnostics diagnostics).ok = (ofDiagnostics diagnostics).errors.isEmpty := by
  rw [Bool.eq_iff_iff]
  simp [ofDiagnostics, errors]

variable (d : Document) (registry : Option Registry)

/-- With a registry there are the reports without one, then those about missing resolvers. -/
theorem diagnostics_ofDocument :
    (ofDocument d registry).diagnostics =
      (ofDocument d none).diagnostics ++ Rule.check d registry .unresolvedReference := by
  have hsplit (registry : Option Registry) : (ofDocument d registry).diagnostics =
      Rule.structural.flatMap (Rule.check d none) ++
        Rule.check d registry .unresolvedReference := by
    change [Rule.requiredSections, .emptySection, .referenceKind, .unresolvedReference].flatMap
      (Rule.check d registry) = _
    simp [Rule.structural, Rule.check]
  rw [hsplit registry, hsplit none]
  exact congrArg (· ++ _) (List.append_nil _).symm

/-- All that is reported without a registry is errors. -/
theorem isError_of_mem_none {x : Diagnostic} (h : x ∈ (ofDocument d none).diagnostics) :
    x.isError = true := by
  obtain ⟨rule, hrule, hx⟩ := List.mem_flatMap.mp h
  have hstructural : rule ∈ Rule.structural := by
    cases rule with
    | unresolvedReference => cases hx
    | _ => decide
  rw [Diagnostic.isError, Rule.severity_of_mem_check hx,
    Rule.severity_of_mem_structural hstructural]
  rfl

/-- The errors are what is reported without a registry. -/
theorem errors_ofDocument :
    (ofDocument d registry).errors = (ofDocument d none).diagnostics := by
  have hwarnings : ∀ x ∈ Rule.check d registry .unresolvedReference, ¬x.isError = true := by
    intro x hx
    rw [Diagnostic.isError, Rule.severity_of_mem_check hx]
    decide
  rw [errors, diagnostics_ofDocument, List.filter_append,
    List.filter_eq_self.mpr fun x hx => isError_of_mem_none d hx,
    List.filter_eq_nil_iff.mpr hwarnings, List.append_nil]

/-- A document is fit to run exactly if nothing is reported without a registry. -/
theorem ok_ofDocument :
    (ofDocument d registry).ok = (ofDocument d none).diagnostics.isEmpty := by
  rw [← errors_ofDocument d registry]
  exact ok_ofDiagnostics _

end Validation

end PromptScript
