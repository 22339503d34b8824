import PromptScript.Execution
import PromptScript.Proofs.Dictionary

/-!
# What execution accounts for

Each reference of a form comes to one of three ends: no resolver serves its kind, its resolver
answers, or its resolver fails. The log, the outputs, the reports and the requests answered are all
read off these ends, in the order of the references. A resolver sees a request once, and with it the
requests that it answered before, those of earlier references last.
-/

namespace PromptScript

/-- The end that a reference comes to. -/
inductive Outcome where
  /-- No resolver serves its kind. -/
  | missing
  /-- Its resolver answers. -/
  | answered (value : Json)
  /-- Its resolver fails. -/
  | failed (error : ResolverError)

/-- The end that an answer is. -/
def Outcome.ofAnswer : Except ResolverError Json → Outcome
  | .ok value => .answered value
  | .error error => .failed error

/-- A reference, the place that is known for it, and the end that it comes to. -/
structure Account where
  /-- The reference. -/
  reference : FormReference
  /-- Where it begins, if that is known. -/
  place : Option Position
  /-- The end that it comes to. -/
  outcome : Outcome

namespace Account

/-- The entry of a log. -/
def entry (a : Account) : Text :=
  match a.outcome with
  | .missing => "unresolved: ".toList ++ a.reference.kind
  | .answered _ => "resolved: ".toList ++ a.reference.kind
  | .failed error => "error in ".toList ++ a.reference.kind ++ ": ".toList ++ error.render

/-- The report, unless the resolver answers: a warning if there is none, and an error if it
fails. -/
def report? (a : Account) : Option Diagnostic :=
  match a.outcome with
  | .missing =>
    some ⟨"No capability registered for '@".toList ++ a.reference.kind ++ ['\''], .warning,
      "W_UNRESOLVED_REF".toList, a.place.map (·.line), a.place.map (·.column)⟩
  | .answered _ => none
  | .failed error =>
    some ⟨"Resolver for '@".toList ++ a.reference.kind ++ "' failed: ".toList ++ error.render, .error,
      "E_RESOLVER".toList, a.place.map (·.line), a.place.map (·.column)⟩

/-- The output of a kind, if the reference is of that kind and its resolver answers. -/
def output? (kind : Text) (a : Account) : Option Json :=
  match a.outcome with
  | .answered value => if a.reference.kind = kind then some value else none
  | _ => none

end Account

namespace Registry

variable (registry : Registry) (context : List (Text × Json))

/-- The requests that references make to the resolver registered for a kind, in order. -/
def requestsTo (served : Text) (references : List FormReference) : List Request :=
  (references.filter fun r => registry.serving? r.kind == some served).map fun r =>
    ⟨r.kind, r.target, r.body, r.params, context⟩

/-- The requests that the resolver of a kind has answered once earlier references are past, the
latest first. -/
def history (calls : Calls) (earlier : List FormReference) (kind : Text) : List Request :=
  match registry.serving? kind with
  | some served => (registry.requestsTo context served earlier).reverse ++ calls.of served
  | none => []

/-- The end that a reference comes to once earlier references are past. -/
def outcome (calls : Calls) (earlier : List FormReference) (r : FormReference) : Outcome :=
  match registry.lookup r.kind with
  | none => .missing
  | some resolver =>
    .ofAnswer <| resolver (registry.history context calls earlier r.kind)
      ⟨r.kind, r.target, r.body, r.params, context⟩

/-- The accounts of references, the spans of the first of them being known. -/
def accounts (calls : Calls) (references : List FormReference) (spans : List Span) : List Account :=
  references.mapIdx fun i r =>
    ⟨r, spans[i]?.map (·.start), registry.outcome context calls (references.take i) r⟩

end Registry

namespace Registry

variable {registry : Registry} {context : List (Text × Json)} {kind served : Text}

/-- The kind that serves another has a resolver. -/
theorem exists_resolver_of_serving? (h : registry.serving? kind = some served) :
    ∃ resolver, registry.resolvers.get? served = some resolver := by
  have hcontains : registry.resolvers.contains served = true := by
    unfold serving? at h
    split at h
    · cases h
      assumption
    · obtain ⟨parts, -, hparts⟩ := Option.bind_eq_some_iff.mp h
      split at hparts
      · cases hparts
        assumption
      · cases hparts
  exact Option.isSome_iff_exists.mp hcontains

/-- The resolver of a kind is the one that the serving kind has. -/
theorem lookup_of_serving? {resolver : Resolver} (h : registry.serving? kind = some served)
    (hresolver : registry.resolvers.get? served = some resolver) :
    registry.lookup kind = some resolver := by
  rw [lookup, h, Option.bind_some, hresolver]

/-- A kind that nothing serves has no resolver. -/
theorem lookup_of_not_serving? (h : registry.serving? kind = none) :
    registry.lookup kind = none := by
  rw [lookup, h, Option.bind_none]

end Registry

/-- The requests answered once a reference is past. -/
def Calls.past (calls : Calls) (registry : Registry) (context : List (Text × Json))
    (r : FormReference) : Calls :=
  match registry.serving? r.kind with
  | some served =>
    Dictionary.alter calls served fun found => Execution.request context r :: found.getD []
  | none => calls

/-- The resolver that serves a reference has answered one more request, and no other has. -/
theorem Calls.of_past (calls : Calls) (registry : Registry) (context : List (Text × Json))
    (r : FormReference) (served : Text) :
    (calls.past registry context r).of served =
      registry.requestsTo context served [r] ++ calls.of served := by
  unfold past
  cases hserving : registry.serving? r.kind with
  | none => simp [Registry.requestsTo, hserving]
  | some own =>
    simp only [of, Dictionary.get?_alter]
    by_cases h : served = own
    · subst h
      simp [Registry.requestsTo, hserving, Execution.request]
    · have hne : own ≠ served := fun heq => h heq.symm
      simp [Registry.requestsTo, hserving, h, hne]

namespace Registry

variable (registry : Registry) (context : List (Text × Json))

/-- The requests of references in a row are those of the first one and then those of the others. -/
theorem requestsTo_cons (served : Text) (r : FormReference) (references : List FormReference) :
    registry.requestsTo context served (r :: references) =
      registry.requestsTo context served [r] ++ registry.requestsTo context served references := by
  unfold requestsTo
  rw [← List.map_append, ← List.filter_append, List.singleton_append]

/-- One reference makes one request at most. -/
theorem reverse_requestsTo_singleton (served : Text) (r : FormReference) :
    (registry.requestsTo context served [r]).reverse = registry.requestsTo context served [r] := by
  rw [requestsTo, List.filter_cons]
  split <;> rfl

/-- The request of a reference belongs to the history once the reference is past. -/
theorem history_cons (calls : Calls) (r : FormReference) (earlier : List FormReference)
    (kind : Text) :
    registry.history context calls (r :: earlier) kind =
      registry.history context (calls.past registry context r) earlier kind := by
  unfold history
  cases registry.serving? kind with
  | none => rfl
  | some served =>
    simp only [Calls.of_past, requestsTo_cons registry context served r earlier,
      List.reverse_append, reverse_requestsTo_singleton, List.append_assoc]

/-- What comes after a reference is accounted for once it is past. -/
theorem accounts_cons (calls : Calls) (r : FormReference) (references : List FormReference)
    (spans : List Span) :
    registry.accounts context calls (r :: references) spans =
      ⟨r, spans.head?.map (·.start), registry.outcome context calls [] r⟩ ::
        registry.accounts context (calls.past registry context r) references spans.tail := by
  have houtcome (earlier : List FormReference) (other : FormReference) :
      registry.outcome context calls (r :: earlier) other =
        registry.outcome context (calls.past registry context r) earlier other := by
    unfold outcome
    rw [history_cons]
  unfold accounts
  rw [List.mapIdx_cons, List.take_zero, ← List.head?_eq_getElem?]
  simp only [List.take_succ_cons, houtcome, List.getElem?_tail]

/-- There is one account for each reference, in order. -/
theorem map_reference_accounts (calls : Calls) (references : List FormReference)
    (spans : List Span) :
    (registry.accounts context calls references spans).map (·.reference) = references := by
  unfold accounts
  exact List.ext_getElem (by simp) (by simp)

end Registry

namespace Execution

/-- The outputs of a kind. -/
def outputs (e : Execution) (kind : Text) : List Json :=
  (e.resolved.get? kind).getD []

/-- A kind that is there only with outputs is there exactly if it has any. -/
theorem get?_eq_of_proper {e : Execution} {kind : Text} (h : e.resolved.get? kind ≠ some []) :
    e.resolved.get? kind =
      if (e.outputs kind).isEmpty then none else some (e.outputs kind) := by
  unfold outputs
  cases hget : e.resolved.get? kind with
  | none => rfl
  | some values =>
    cases values with
    | nil => exact absurd hget h
    | cons value values => rfl

/-- The number of outputs. -/
def outputCount (e : Execution) : Nat :=
  e.resolved.weigh List.length

/-- Whether execution has come from one state to another by references that come to these ends. -/
structure Adds (before : Execution) (accounts : List Account) (after : Execution) : Prop where
  /-- The log has one entry for each. -/
  log : after.log = before.log ++ accounts.map Account.entry
  /-- The reports are those of the accounts. -/
  diagnostics : after.diagnostics = before.diagnostics ++ accounts.filterMap Account.report?
  /-- The outputs of each kind are those of the accounts. -/
  outputs : ∀ kind, after.outputs kind = before.outputs kind ++ accounts.filterMap (·.output? kind)
  /-- No kind is there without an output, unless it was before. -/
  proper : (∀ kind, before.resolved.get? kind ≠ some []) → ∀ kind, after.resolved.get? kind ≠ some []
  /-- Each account is an output or a report. -/
  count : after.outputCount + after.diagnostics.length =
    before.outputCount + before.diagnostics.length + accounts.length

namespace Adds

variable {before mid after : Execution} {as bs : List Account}

/-- Of no accounts nothing is added. -/
theorem refl (e : Execution) : e.Adds [] e :=
  ⟨(List.append_nil _).symm, (List.append_nil _).symm, fun _ => (List.append_nil _).symm, id, rfl⟩

/-- Executions in a row add the accounts of the one and then those of the other. -/
theorem trans (h : before.Adds as mid) (h' : mid.Adds bs after) : before.Adds (as ++ bs) after where
  log := by rw [h'.log, h.log, List.map_append, List.append_assoc]
  diagnostics := by rw [h'.diagnostics, h.diagnostics, List.filterMap_append, List.append_assoc]
  outputs kind := by rw [h'.outputs, h.outputs, List.filterMap_append, List.append_assoc]
  proper hproper := h'.proper (h.proper hproper)
  count := by
    have hcount := h.count
    have hcount' := h'.count
    rw [List.length_append]
    omega

end Adds

variable (registry : Registry) (context : List (Text × Json))

/-- An end that is no answer is logged and reported. -/
theorem adds_reported (e : Execution) {a : Account} {d : Diagnostic} (hreport : a.report? = some d)
    (houtput : ∀ kind, a.output? kind = none) : e.Adds [a] ((e.note a.entry).report d) where
  log := rfl
  diagnostics := by
    rw [List.filterMap_cons_some hreport]
    rfl
  outputs kind := by
    rw [List.filterMap_cons_none (houtput kind)]
    exact (List.append_nil _).symm
  proper := id
  count := by
    simp [note, report, outputCount]
    omega

/-- A reference that no resolver serves is logged and reported. -/
theorem adds_missing (e : Execution) (r : FormReference) (place : Option Span) :
    e.Adds [⟨r, place.map (·.start), .missing⟩]
      ((e.note ("unresolved: ".toList ++ r.kind)).report
        (locate place (Diagnostic.unresolved r.kind))) :=
  e.adds_reported (by cases place <;> rfl) fun _ => rfl

/-- A reference whose resolver fails is logged and reported. -/
theorem adds_failed (e : Execution) (r : FormReference) (place : Option Span) (error : ResolverError) :
    e.Adds [⟨r, place.map (·.start), .failed error⟩]
      ((e.note ("error in ".toList ++ r.kind ++ ": ".toList ++ error.render)).report
        (locate place (failure r.kind error))) :=
  e.adds_reported (by cases place <;> rfl) fun _ => rfl

/-- A reference whose resolver answers is logged, and the answer is an output of its kind. -/
theorem adds_answered (e : Execution) (r : FormReference) (place : Option Span) (value : Json) :
    e.Adds [⟨r, place.map (·.start), .answered value⟩]
      ((e.note ("resolved: ".toList ++ r.kind)).output r.kind value) where
  log := rfl
  diagnostics := (List.append_nil _).symm
  outputs kind := by
    by_cases h : kind = r.kind
    · simp [outputs, output, note, Dictionary.get?_alter, Account.output?, h]
    · have hne : ¬r.kind = kind := fun heq => h heq.symm
      simp [outputs, output, note, Dictionary.get?_alter, Account.output?, h, hne]
  proper hproper kind := by
    by_cases h : kind = r.kind
    · simp [output, note, Dictionary.get?_alter, h]
    · simpa [output, note, Dictionary.get?_alter, h] using hproper kind
  count := by
    have hweigh := e.resolved.weigh_insert List.length r.kind
      ((e.resolved.get? r.kind).getD [] ++ [value])
    have hlength : ((e.resolved.get? r.kind).getD [] ++ [value]).length =
        ((e.resolved.get? r.kind).map List.length).getD 0 + 1 := by
      cases e.resolved.get? r.kind <;> simp
    simp only [outputCount, output, note, Dictionary.alter, List.length_singleton]
    omega

/-- A request that is recorded leaves everything else as it is. -/
theorem Adds.of_record {e after : Execution} {served : Text} {q : Request} {as : List Account}
    (h : (e.record served q).Adds as after) : e.Adds as after :=
  ⟨h.log, h.diagnostics, h.outputs, h.proper, h.count⟩

/-- A step comes to the end of its reference, and the request is answered if there is a resolver. -/
theorem adds_step (e : Execution) (r : FormReference) (place : Option Span) :
    e.Adds [⟨r, place.map (·.start), registry.outcome context e.calls [] r⟩]
        (step registry context e r place) ∧
      (step registry context e r place).calls = e.calls.past registry context r := by
  unfold step Calls.past Registry.outcome Registry.history
  cases hserving : registry.serving? r.kind with
  | none =>
    simp only [Registry.lookup_of_not_serving? hserving]
    exact ⟨adds_missing e r place, rfl⟩
  | some served =>
    obtain ⟨resolver, hresolver⟩ := Registry.exists_resolver_of_serving? hserving
    simp only [hresolver, Registry.lookup_of_serving? hserving hresolver]
    have hrequest : request context r = ⟨r.kind, r.target, r.body, r.params, context⟩ := rfl
    have hhistory : (registry.requestsTo context served []).reverse ++ e.calls.of served =
        e.calls.of served := rfl
    rw [hhistory, ← hrequest]
    cases resolver (e.calls.of served) (request context r) with
    | ok value => exact ⟨(adds_answered _ r place value).of_record, rfl⟩
    | error error => exact ⟨(adds_failed _ r place error).of_record, rfl⟩

/-- References are executed one after the other, each with its span if there is one. -/
theorem steps_cons (e : Execution) (r : FormReference) (references : List FormReference)
    (spans : List Span) :
    steps registry context e (r :: references) spans =
      steps registry context (step registry context e r spans.head?) references spans.tail := by
  cases spans <;> rfl

/-- A run comes to the ends of its references, and each of their requests is answered once. -/
theorem adds_steps (e : Execution) (references : List FormReference) (spans : List Span) :
    e.Adds (registry.accounts context e.calls references spans)
        (steps registry context e references spans) ∧
      ∀ served, (steps registry context e references spans).calls.of served =
        (registry.requestsTo context served references).reverse ++ e.calls.of served := by
  induction references generalizing e spans with
  | nil => exact ⟨.refl e, fun _ => rfl⟩
  | cons r references ih =>
    obtain ⟨hstep, hcalls⟩ := adds_step registry context e r spans.head?
    obtain ⟨hsteps, hanswered⟩ := ih (step registry context e r spans.head?) spans.tail
    rw [hcalls] at hsteps
    rw [steps_cons, Registry.accounts_cons]
    refine ⟨hstep.trans hsteps, fun served => ?_⟩
    rw [hanswered, hcalls, Calls.of_past, Registry.requestsTo_cons _ _ _ r references,
      List.reverse_append, Registry.reverse_requestsTo_singleton, List.append_assoc]

/-- The accounts of a form are those of its references, from the log and the requests before. -/
theorem adds_ofForm (form : Form) (places : List Span) (log : List Text) (calls : Calls) :
    (start log calls).Adds (registry.accounts context calls form.references places)
      (ofForm registry form context places log calls) :=
  (adds_steps registry context (start log calls) form.references places).1

end Execution

/-- Execution accounts for every reference once. The log goes on with one entry for each reference,
in order. Each resolver answers the request of each reference that it serves once, in order. A kind
has outputs if a resolver has answered a reference of that kind, and then they are the answers in
order. There is one report for each reference without a resolver and for each failure, in order and
at the place of the reference, if that is known. The outputs and the reports are as many as the
references. -/
theorem execution_accounts (registry : Registry) (form : Form) (context : List (Text × Json))
    (places : List Span) (log : List Text) (calls : Calls) :
    let accounts := registry.accounts context calls form.references places
    let execution := Execution.ofForm registry form context places log calls
    execution.log = log ++ accounts.map Account.entry ∧
      (∀ served, execution.calls.of served =
        (registry.requestsTo context served form.references).reverse ++ calls.of served) ∧
      (∀ kind, execution.resolved.get? kind =
        if (accounts.filterMap (·.output? kind)).isEmpty then none
        else some (accounts.filterMap (·.output? kind))) ∧
      execution.diagnostics = accounts.filterMap Account.report? ∧
      (execution.resolved.entries.map fun entry => entry.2.length).sum +
        execution.diagnostics.length = form.references.length := by
  have hanswered := (Execution.adds_steps registry context (.start log calls) form.references
    places).2
  have hadds := Execution.adds_ofForm registry context form places log calls
  have hproper := hadds.proper fun kind h => by cases h
  refine ⟨hadds.log, hanswered, fun kind => ?_, hadds.diagnostics, ?_⟩
  · rw [Execution.get?_eq_of_proper (hproper kind), hadds.outputs]
    rfl
  · have hcount := hadds.count
    rw [Registry.accounts, List.length_mapIdx] at hcount
    exact hcount.trans (Nat.zero_add _)

end PromptScript
