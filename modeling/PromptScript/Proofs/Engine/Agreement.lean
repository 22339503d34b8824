import PromptScript.Engine
import PromptScript.Proofs.Execution.Accounting
import PromptScript.Proofs.Parsing.Agreement
import PromptScript.Proofs.Validation.Rules

/-!
# The three operations agree

Validating and compiling check kinds against the registry of the engine. Running does not: a kind
without a resolver is left to the execution, which reports it when it comes to the reference. The
errors are the same with a registry or without, so a script is run exactly if it is valid, and of a
valid script the execution reports the same missing resolvers, at the same places, as validation
does.
-/

namespace PromptScript

namespace Engine

variable (e : Engine) (source : Text) (context : List (Text × Json))

/-- What is said of each reference of a script when the engine runs it. -/
def accounts : List Account :=
  let document := (Parsed.ofText source).document
  e.registry.accounts context e.calls document.lower.references (document.references.map (·.span))

/-- What the rules report without a registry is the errors among what they report with one. -/
theorem errors_validate :
    (e.validate source).errors =
      (Validation.ofDocument (Parsed.ofText source).document none).diagnostics :=
  Validation.errors_ofDocument _ _

/-- A script is valid with a registry exactly if it is without one. -/
theorem ok_validate :
    (e.validate source).ok =
      (Validation.ofDocument (Parsed.ofText source).document none).ok := by
  rw [Validation.ok_ofDocument]
  exact Validation.ok_ofDocument _ _

/-- Of a valid script nothing is reported without a registry. -/
theorem diagnostics_none_of_valid (h : (e.validate source).ok = true) :
    (Validation.ofDocument (Parsed.ofText source).document none).diagnostics = [] := by
  rw [ok_validate, Validation.ok_ofDocument] at h
  exact List.isEmpty_iff.mp h

/-- A script that is not valid is refused for its errors, and no resolver is asked. -/
theorem run_of_invalid (h : (e.validate source).ok = false) :
    e.run source context = (.error ⟨(e.validate source).errors⟩, e) := by
  rw [ok_validate] at h
  simp only [run, h, errors_validate]
  rfl

/-- A script that is valid is run: the log and the reports are those of the accounts, after two
entries and the problems in the form of the script. -/
theorem exists_run_of_valid (h : (e.validate source).ok = true) :
    ∃ run after, e.run source context = (.ok run, after) ∧
      run.form = (e.compile source).form ∧
      run.log = ["validate: ok".toList,
        "compile: task='".toList ++ (e.compile source).form.task ++ ['\'']] ++
          (e.accounts source context).map Account.entry ∧
      run.diagnostics = (e.validate source).parseDiagnostics ++
        (e.accounts source context).filterMap Account.report? := by
  have hnone := e.diagnostics_none_of_valid source h
  rw [ok_validate] at h
  have hadds := Execution.adds_ofForm e.registry context (Parsed.ofText source).document.lower
    ((Parsed.ofText source).document.references.map (·.span))
    ["validate: ok".toList,
      "compile: task='".toList ++ (Parsed.ofText source).document.lower.task ++ ['\'']] e.calls
  simp only [run, h, if_true]
  refine ⟨_, _, rfl, rfl, hadds.log, ?_⟩
  simp only [hnone, List.append_nil]
  exact congrArg (_ ++ ·) hadds.diagnostics

/-- A script that is run is valid; its form is the compiled one, and the reports are the problems in
the form of the script, then those of the accounts. -/
theorem of_run {run : Run} {after : Engine} (h : e.run source context = (.ok run, after)) :
    (e.validate source).ok = true ∧ run.form = (e.compile source).form ∧
      run.diagnostics = (e.validate source).parseDiagnostics ++
        (e.accounts source context).filterMap Account.report? := by
  cases hok : (e.validate source).ok with
  | false =>
    rw [e.run_of_invalid source context hok] at h
    cases h
  | true =>
    obtain ⟨own, rest, hown, hform, -, hdiagnostics⟩ := e.exists_run_of_valid source context hok
    rw [hown] at h
    cases h
    exact ⟨rfl, hform, hdiagnostics⟩

end Engine

/-- Validating, compiling and running a script agree. Compiling reports the problems in its form,
then what validating reports. Running refuses it exactly if it is not valid, for the errors that
validating reports, and then leaves the engine as it is. Otherwise the form is the compiled one, the
log has two entries and one for each reference, and the reports are the problems in the form of the
script, then those of the execution. -/
theorem operations_agree (e : Engine) (source : Text) (context : List (Text × Json)) :
    let v := e.validate source
    let c := e.compile source
    let accounts := e.registry.accounts context e.calls c.form.references
      (c.document.references.map (·.span))
    c.diagnostics = v.parseDiagnostics ++ v.diagnostics ∧
      accounts.map (·.reference) = c.form.references ∧
      match e.run source context with
      | (.error refusal, after) =>
        v.ok = false ∧ refusal.diagnostics = v.diagnostics.filter (·.isError) ∧ after = e
      | (.ok run, _) =>
        v.ok = true ∧ run.form = c.form ∧
          run.log = ["validate: ok".toList, "compile: task='".toList ++ c.form.task ++ ['\'']] ++
            accounts.map Account.entry ∧
          run.diagnostics = v.parseDiagnostics ++ accounts.filterMap Account.report? := by
  refine ⟨rfl, Registry.map_reference_accounts _ _ _ _ _, ?_⟩
  cases hok : (e.validate source).ok with
  | false =>
    rw [e.run_of_invalid source context hok]
    exact ⟨rfl, rfl, rfl⟩
  | true =>
    obtain ⟨run, after, hrun, hform, hlog, hdiagnostics⟩ := e.exists_run_of_valid source context hok
    rw [hrun]
    exact ⟨rfl, hform, hlog, hdiagnostics⟩

/-- Whether a report is that no resolver serves a kind. -/
def Diagnostic.isUnresolved (x : Diagnostic) : Bool :=
  x.code == "W_UNRESOLVED_REF".toList

/-- Whether an entry of a log is that no resolver serves a kind. -/
def Account.isUnresolvedEntry (entry : Text) : Bool :=
  "unresolved: ".toList.isPrefixOf entry

/-- No problem of a document is that a kind has no resolver. -/
theorem Document.Problem.not_isUnresolved (problem : Document.Problem) (span : Span) :
    (problem.diagnostic span).isUnresolved = false := by
  cases problem <;> rfl

namespace Account

/-- Whether the resolver is missing. -/
def isMissing (a : Account) : Bool :=
  match a.outcome with
  | .missing => true
  | _ => false

/-- The log says that a kind has no resolver exactly where an account is that of one. -/
theorem isUnresolvedEntry_entry (a : Account) : isUnresolvedEntry a.entry = a.isMissing := by
  unfold entry isMissing
  cases a.outcome <;> rfl

/-- A missing resolver is reported exactly where an account is that of one. -/
theorem isSome_unresolved_report? (a : Account) :
    (a.report?.filter Diagnostic.isUnresolved).isSome = a.isMissing := by
  unfold report? isMissing
  cases a.outcome <;> rfl

/-- There are as many entries as reports of missing resolvers. -/
theorem length_unresolved (accounts : List Account) :
    ((accounts.map entry).filter isUnresolvedEntry).length =
      ((accounts.filterMap report?).filter Diagnostic.isUnresolved).length := by
  rw [← List.countP_eq_length_filter, List.countP_map, List.filter_filterMap,
    List.length_filterMap_eq_countP]
  congr 1
  funext a
  exact (isUnresolvedEntry_entry a).trans (isSome_unresolved_report? a).symm

end Account

namespace Registry

variable (registry : Registry) (context : List (Text × Json)) (calls : Calls)

/-- That its resolver is missing is reported of a reference exactly if the registry does not serve
its kind. -/
theorem unresolved_report? (r : Reference) :
    (Account.report? ⟨r.lower, some r.span.start, registry.outcome context calls [] r.lower⟩).filter
        Diagnostic.isUnresolved =
      if registry.contains r.kind then none
      else some ((Diagnostic.unresolved r.kind).located r.span) := by
  have hkind : r.lower.kind = r.kind := rfl
  rw [outcome, contains, hkind]
  cases registry.lookup r.kind with
  | none => rfl
  | some resolver =>
    simp only [Outcome.ofAnswer]
    split <;> rfl

/-- The missing resolvers that a run reports are those of the references whose kinds the registry
does not serve, in order. -/
theorem unresolved_accounts (references : List Reference) :
    ((registry.accounts context calls (references.map Reference.lower)
        (references.map (·.span))).filterMap Account.report?).filter Diagnostic.isUnresolved =
      (references.filter fun r => !registry.contains r.kind).map fun r =>
        (Diagnostic.unresolved r.kind).located r.span := by
  rw [List.filter_filterMap]
  induction references generalizing calls with
  | nil => rfl
  | cons r references ih =>
    simp only [List.map_cons, accounts_cons, List.head?_cons, Option.map_some, List.tail_cons,
      List.filterMap_cons, unresolved_report?, ih]
    cases hcontains : registry.contains r.kind <;> simp [hcontains]

end Registry

namespace Engine

variable {e : Engine} {source : Text}

/-- Of a valid script validation reports nothing but missing resolvers, those of the references whose
kinds the registry does not serve, in order. -/
theorem diagnostics_validate_of_valid (hregistry : e.registry.isEmpty = false)
    (hok : (e.validate source).ok = true) :
    (e.validate source).diagnostics =
      ((Parsed.ofText source).document.references.filter fun r =>
        !e.registry.contains r.kind).map fun r =>
          (Diagnostic.unresolved r.kind).located r.span := by
  have hnone := e.diagnostics_none_of_valid source hok
  have hvalid : ∀ r ∈ (Parsed.ofText source).document.references, isValidKind r.kind = true := by
    have hrule : Rule.check (Parsed.ofText source).document none .referenceKind = [] :=
      List.flatMap_eq_nil_iff.mp hnone .referenceKind (by decide)
    exact fun r hr => Rule.isValidKind_of_check_eq_nil hrule hr
  have hchecked : e.checked = some e.registry := by simp [checked, hregistry]
  change (Validation.ofDocument _ e.checked).diagnostics = _
  rw [hchecked, Validation.diagnostics_ofDocument, hnone, List.nil_append]
  simp only [Rule.check]
  congr 1
  exact List.filter_congr fun r hr => by rw [hvalid r hr, Bool.true_and]

end Engine

/-- Validation and execution report the same missing resolvers: of a valid script, with any
resolvers at all, the warnings are the same, in order and with their places, and the execution
enters as many into the log. -/
theorem unresolved_agree (e : Engine) (source : Text) (context : List (Text × Json))
    (hregistry : e.registry.isEmpty = false) (hok : (e.validate source).ok = true) :
    ∃ run after, e.run source context = (.ok run, after) ∧
      run.diagnostics.filter (·.isUnresolved) =
        (e.validate source).diagnostics.filter (·.isUnresolved) ∧
      ∃ entries, run.log = ["validate: ok".toList,
          "compile: task='".toList ++ run.form.task ++ ['\'']] ++ entries ∧
        (entries.filter Account.isUnresolvedEntry).length =
          ((e.validate source).diagnostics.filter (·.isUnresolved)).length := by
  obtain ⟨run, after, hrun, hform, hlog, hdiagnostics⟩ := e.exists_run_of_valid source context hok
  have hparse : (e.validate source).parseDiagnostics.filter (·.isUnresolved) = [] := by
    refine List.filter_eq_nil_iff.mpr fun x hx => ?_
    obtain ⟨problem, span, -, rfl⟩ := Parsed.exists_problem_of_mem hx
    simp [Document.Problem.not_isUnresolved]
  have hexecution : ((e.accounts source context).filterMap Account.report?).filter
      (·.isUnresolved) = (e.validate source).diagnostics := by
    rw [Engine.diagnostics_validate_of_valid hregistry hok]
    exact e.registry.unresolved_accounts context e.calls _
  have hvalidation : (e.validate source).diagnostics.filter (·.isUnresolved) =
      (e.validate source).diagnostics := by
    rw [← hexecution, List.filter_filter]
    simp only [Bool.and_self]
  refine ⟨run, after, hrun, ?_, _, hform ▸ hlog, ?_⟩
  · rw [hdiagnostics, List.filter_append, hparse, hexecution, hvalidation, List.nil_append]
  · rw [Account.length_unresolved, hexecution, hvalidation]

/-- With a tool alone, a valid script that refers to the tool and to a database has one missing
resolver. -/
theorem unresolved_agree_database :
    let e := Engine.ofRegistry ⟨Dictionary.empty.insert "tool".toList fun _ _ => .ok .null⟩
    let source := "TASK: x\nACTION: y\nGOAL: z\n@tool:a\x7b q \x7d\n@db\x7b q \x7d".toList
    e.registry.isEmpty = false ∧ (e.validate source).ok = true ∧
      ((e.validate source).diagnostics.filter (·.isUnresolved)).length = 1 ∧
      ∃ run after, e.run source [] = (.ok run, after) ∧
        run.diagnostics.filter (·.isUnresolved) =
          (e.validate source).diagnostics.filter (·.isUnresolved) ∧
        ∃ entries, run.log = ["validate: ok".toList,
            "compile: task='".toList ++ run.form.task ++ ['\'']] ++ entries ∧
          (entries.filter Account.isUnresolvedEntry).length =
            ((e.validate source).diagnostics.filter (·.isUnresolved)).length := by
  intro e source
  have hregistry : e.registry.isEmpty = false := rfl
  have hok : (e.validate source).ok = true := by decide +kernel
  exact ⟨hregistry, hok, by decide +kernel, unresolved_agree e source [] hregistry hok⟩

end PromptScript
