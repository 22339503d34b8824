import PromptScript.Proofs.Engine.Agreement
import PromptScript.Proofs.Validation.Exactness

/-!
# Which scripts are accepted

Validation accepts a document exactly if it is fit to run, whether the document comes from a script
or not and whether there is a registry or not, and its errors are the faults of the document. So the
form of a script that is run has everything the script says.
-/

namespace PromptScript

/-- Validation is exact. A document passes exactly if it has one section of each kind and no other,
each with text, and all kinds that its references and its calls name are kinds. The errors are in
order those of its faults, one for each. Of a script that is run, the form has the bodies of the
only three sections, none of them blank, and every reference, block and call. -/
theorem validation_exact (d : Document) (registry : Option Registry) (e : Engine) (source : Text)
    (context : List (Text × Json)) :
    ((Validation.ofDocument d registry).ok = true ↔ d.IsFit) ∧
      (Validation.ofDocument d registry).errors = d.faults.map Document.Fault.diagnostic ∧
      ∀ run after, e.run source context = (.ok run, after) →
        run.form.Keeps (Parsed.ofText source).document := by
  refine ⟨d.ok_iff_isFit registry, d.errors_eq registry, fun run after hrun => ?_⟩
  obtain ⟨hok, hform, -⟩ := e.of_run source context hrun
  have hfit : (Parsed.ofText source).document.IsFit :=
    (Document.ok_iff_isFit _ e.checked).mp hok
  rw [hform]
  exact hfit.keeps

/-- A document with two goals, the first of them blank, is refused for four faults, and a script
with its sections in another order is run. -/
theorem validation_exact_goals :
    let place : Span := ⟨⟨2, 1⟩, ⟨2, 8⟩⟩
    let d : Document :=
      ⟨[⟨.goal, [], ⟨⟨1, 1⟩, ⟨1, 6⟩⟩⟩, ⟨.goal, "b".toList, place⟩], [], [], []⟩
    let e := Engine.ofRegistry .empty
    let source := "GOAL: z\nTASK: x @db:a\nACTION: y\n".toList
    d.faults = [.missing .task, .missing .action, .repeated .goal place,
        .blank .goal ⟨⟨1, 1⟩, ⟨1, 6⟩⟩] ∧
      ((Validation.ofDocument d none).ok = true ↔ d.IsFit) ∧
      (Validation.ofDocument d none).errors = d.faults.map Document.Fault.diagnostic ∧
      ∃ run after, e.run source [] = (.ok run, after) ∧
        run.form.Keeps (Parsed.ofText source).document := by
  intro place d e source
  have hok : (e.validate source).ok = true := by decide +kernel
  obtain ⟨run, after, hrun, -⟩ := e.exists_run_of_valid source [] hok
  obtain ⟨hexact, herrors, hkeeps⟩ := validation_exact d none e source []
  exact ⟨by decide +kernel, hexact, herrors, run, after, hrun, hkeeps run after hrun⟩

end PromptScript
