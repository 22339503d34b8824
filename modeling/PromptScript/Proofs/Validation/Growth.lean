import Mathlib.Data.List.Basic
import PromptScript.Proofs.Registry
import PromptScript.Proofs.Validation.Rules

/-!
# Validation under a growing registry

A registry has a say in warnings alone: which errors there are is up to the document. Registering
resolvers takes warnings away and brings none, since a kind that is served stays served.
-/

namespace PromptScript

namespace Validation

/-- The warnings among what the rules report. -/
def warnings (v : Validation) : List Diagnostic :=
  v.diagnostics.filter (·.severity == .warning)

variable (d : Document)

/-- The warnings are what the rule about resolvers reports. -/
theorem warnings_ofDocument (registry : Option Registry) :
    (ofDocument d registry).warnings = Rule.check d registry .unresolvedReference := by
  have herrors : ∀ x ∈ (ofDocument d none).diagnostics, ¬(x.severity == .warning) = true := by
    intro x hx
    have hseverity : x.severity = .error := by
      simpa [Diagnostic.isError] using isError_of_mem_none d hx
    rw [hseverity]
    decide
  have hwarnings : ∀ x ∈ Rule.check d registry .unresolvedReference,
      (x.severity == .warning) = true := by
    intro x hx
    rw [Rule.severity_of_mem_check hx]
    rfl
  rw [warnings, diagnostics_ofDocument, List.filter_append, List.filter_eq_nil_iff.mpr herrors,
    List.filter_eq_self.mpr hwarnings, List.nil_append]

/-- A registry that serves more kinds gives some of the same warnings, in the same order. -/
theorem warnings_sublist {registry grown : Registry}
    (h : ∀ kind, registry.contains kind = true → grown.contains kind = true) :
    (ofDocument d (some grown)).warnings.Sublist (ofDocument d (some registry)).warnings := by
  rw [warnings_ofDocument, warnings_ofDocument]
  refine List.Sublist.map _ (List.monotone_filter_right _ fun r => ?_)
  cases hregistry : registry.contains r.kind with
  | false => simp +contextual
  | true => simp [h r.kind hregistry]

end Validation

/-- Registering resolvers only silences warnings. Of any document, validation under a registry that
has grown by registrations in a row, whether they succeed or not, has the same outcome and the same
errors, in order, as under the registry before and as without one. Its warnings are some of those
under the registry before, in order, and without a registry there are none. -/
theorem registering_silences (d : Document) (registry : Registry) (calls : List Registration) :
    let grown := Validation.ofDocument d (some (registry.performAll calls))
    let before := Validation.ofDocument d (some registry)
    let bare := Validation.ofDocument d none
    (grown.ok = before.ok ∧ grown.ok = bare.ok) ∧
      (grown.errors = before.errors ∧ grown.errors = bare.errors) ∧
      grown.warnings.Sublist before.warnings ∧ bare.warnings = [] := by
  intro grown before bare
  have hok (registry : Option Registry) : (Validation.ofDocument d registry).ok = bare.ok :=
    (Validation.ok_ofDocument d registry).trans (Validation.ok_ofDocument d none).symm
  have herrors (registry : Option Registry) :
      (Validation.ofDocument d registry).errors = bare.errors :=
    (Validation.errors_ofDocument d registry).trans (Validation.errors_ofDocument d none).symm
  exact ⟨⟨(hok _).trans (hok _).symm, hok _⟩, ⟨(herrors _).trans (herrors _).symm, herrors _⟩,
    Validation.warnings_sublist d fun _ h => Registry.contains_performAll h calls,
    Validation.warnings_ofDocument d none⟩

end PromptScript
