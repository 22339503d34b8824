import PromptScript.Proofs.Execution.Accounting

/-!
# Execution in parts

Execution of references in a row is execution of the first of them and then of the others, with the
log and the answered requests that the first leave behind. What a reference comes to depends on no
other reference but through the requests that its own resolver has answered. So a reference that is
left out is missed by none but those that share its resolver, whatever it would have come to.
-/

namespace PromptScript

namespace Execution

/-- Execution that went on where an earlier one had ended: the outputs and the reports of the
earlier one come first. -/
def following (e earlier : Execution) : Execution :=
  ⟨e.log, earlier.resolved.merge e.resolved (· ++ ·), earlier.diagnostics ++ e.diagnostics, e.calls⟩

/-- Where nothing has been done yet, there is what the earlier one has done. -/
theorem start_following (e : Execution) : (start e.log e.calls).following e = e := by
  unfold following start
  rw [List.append_nil]
  rfl

/-- An entry that is noted after an earlier execution is noted behind its log. -/
theorem note_following (e earlier : Execution) (entry : Text) :
    (e.following earlier).note entry = (e.note entry).following earlier :=
  rfl

/-- A request that is answered after an earlier execution joins those answered there. -/
theorem record_following (e earlier : Execution) (served : Text) (q : Request) :
    (e.following earlier).record served q = (e.record served q).following earlier :=
  rfl

/-- A report after an earlier execution comes behind its reports. -/
theorem report_following (e earlier : Execution) (d : Diagnostic) :
    (e.following earlier).report d = (e.report d).following earlier := by
  simp only [report, following, List.append_assoc]

/-- An output is the last of its kind, whether or not earlier ones are counted in. -/
theorem output_following (e earlier : Execution) (kind : Text) (value : Json) :
    (e.following earlier).output kind value = (e.output kind value).following earlier := by
  have hresolved : ((e.following earlier).output kind value).resolved =
      ((e.output kind value).following earlier).resolved := by
    refine Dictionary.ext_get? fun key => ?_
    simp only [output, following, Dictionary.get?_alter, Dictionary.get?_merge]
    by_cases hkey : key = kind
    · rw [if_pos hkey, if_pos hkey, hkey]
      cases earlier.resolved.get? kind <;> cases e.resolved.get? kind <;> simp [Option.merge]
    · rw [if_neg hkey, if_neg hkey]
  simp only [output, following] at hresolved ⊢
  rw [hresolved]

variable (registry : Registry) (context : List (Text × Json))

/-- A step looks at nothing of what is behind it but the requests answered. -/
theorem step_following (e earlier : Execution) (r : FormReference) (place : Option Span) :
    step registry context (e.following earlier) r place =
      (step registry context e r place).following earlier := by
  have hcalls : (e.following earlier).calls = e.calls := rfl
  unfold step
  simp only [hcalls, note_following, report_following, record_following, output_following]
  cases registry.serving? r.kind with
  | none => rfl
  | some served =>
    cases hresolver : registry.resolvers.get? served with
    | none => simp only [hresolver]
    | some resolver =>
      simp only [hresolver]
      cases resolver (e.calls.of served) (request context r) <;> rfl

/-- An execution after an earlier one is the execution by itself, put behind that. -/
theorem steps_following (e earlier : Execution) (references : List FormReference)
    (spans : List Span) :
    steps registry context (e.following earlier) references spans =
      (steps registry context e references spans).following earlier := by
  induction references generalizing e spans with
  | nil => rfl
  | cons r references ih => rw [steps_cons, steps_cons, step_following, ih]

/-- The first references are past before the others, which have the spans after theirs. -/
theorem steps_append (e : Execution) (first rest : List FormReference) (spans : List Span) :
    steps registry context e (first ++ rest) spans =
      steps registry context (steps registry context e first spans) rest
        (spans.drop first.length) := by
  induction first generalizing e spans with
  | nil => rfl
  | cons r first ih =>
    rw [List.cons_append, steps_cons, steps_cons, ih, List.length_cons, ← List.drop_one,
      List.drop_drop, Nat.add_comm]

/-- The steps past more references are those of an execution that goes on. -/
theorem steps_append_eq_following (log : List Text) (calls : Calls)
    (first rest : List FormReference) (spans : List Span) :
    let before := steps registry context (start log calls) first spans
    steps registry context (start log calls) (first ++ rest) spans =
      (steps registry context (start before.log before.calls) rest
        (spans.drop first.length)).following before := by
  intro before
  rw [steps_append, ← steps_following, start_following]

end Execution

/-- The requests answered once references are past. -/
def Calls.pastAll (calls : Calls) (registry : Registry) (context : List (Text × Json))
    (references : List FormReference) : Calls :=
  references.foldl (fun calls r => calls.past registry context r) calls

/-- Whether two accounts are of one reference at one place, and say that it comes to the same end
unless the resolver of a kind serves it. -/
structure Account.AgreesBut (registry : Registry) (kind : Text) (a b : Account) : Prop where
  /-- They are of the same reference. -/
  reference_eq : a.reference = b.reference
  /-- Its place is the same. -/
  place_eq : a.place = b.place
  /-- It comes to the same end, unless its resolver is that of the kind. -/
  outcome_eq : (∀ served, registry.serving? kind = some served →
    registry.serving? a.reference.kind ≠ some served) → a.outcome = b.outcome

namespace Registry

variable (registry : Registry) (context : List (Text × Json))

/-- References in a row are accounted for one part after the other. -/
theorem accounts_append (calls : Calls) (first rest : List FormReference) (spans : List Span) :
    registry.accounts context calls (first ++ rest) spans =
      registry.accounts context calls first spans ++
        registry.accounts context (calls.pastAll registry context first) rest
          (spans.drop first.length) := by
  induction first generalizing calls spans with
  | nil => rfl
  | cons r first ih =>
    rw [List.cons_append, accounts_cons, accounts_cons, ih, List.cons_append, List.length_cons,
      ← List.drop_one, List.drop_drop, Nat.add_comm]
    rfl

/-- References are accounted for at their own spans. -/
theorem accounts_congr {spans others : List Span} {references : List FormReference}
    (h : ∀ i < references.length, spans[i]? = others[i]?) (calls : Calls) :
    registry.accounts context calls references spans =
      registry.accounts context calls references others := by
  unfold accounts
  refine List.ext_getElem (by simp) fun i hi _ => ?_
  rw [List.length_mapIdx] at hi
  simp only [List.getElem_mapIdx, h i hi]

/-- What a reference comes to is up to the requests that its own resolver has answered. -/
theorem outcome_congr {calls others : Calls} {r : FormReference}
    (h : ∀ served, registry.serving? r.kind = some served → calls.of served = others.of served) :
    registry.outcome context calls [] r = registry.outcome context others [] r := by
  have hhistory : registry.history context calls [] r.kind =
      registry.history context others [] r.kind := by
    unfold history
    cases hserving : registry.serving? r.kind with
    | none => rfl
    | some served => exact congrArg (_ ++ ·) (h served hserving)
  rw [outcome, outcome, hhistory]

/-- Where resolvers but that of a kind have answered the same requests, references but those of its
resolver come to the same ends. -/
theorem forall₂_agreesBut {kind : Text} {calls others : Calls}
    (h : ∀ served, registry.serving? kind ≠ some served → calls.of served = others.of served)
    (references : List FormReference) (spans : List Span) :
    List.Forall₂ (Account.AgreesBut registry kind)
      (registry.accounts context calls references spans)
      (registry.accounts context others references spans) := by
  induction references generalizing calls others spans with
  | nil => exact .nil
  | cons r references ih =>
    rw [accounts_cons, accounts_cons]
    refine .cons ⟨rfl, rfl, fun hapart => ?_⟩ (ih ?_ _)
    · exact registry.outcome_congr context fun served hserving =>
        h served fun hkind => hapart served hkind hserving
    · intro served hserved
      rw [Calls.of_past, Calls.of_past, h served hserved]

/-- What a reference comes to after others is up to the requests that these have made. -/
theorem outcome_pastAll (calls : Calls) (first : List FormReference) (r : FormReference) :
    registry.outcome context (calls.pastAll registry context first) [] r =
      registry.outcome context calls first r := by
  have hhistory : registry.history context (calls.pastAll registry context first) [] r.kind =
      registry.history context calls first r.kind := by
    induction first generalizing calls with
    | nil => rfl
    | cons s first ih => rw [history_cons, ← ih]; rfl
  rw [outcome, outcome, hhistory]

/-- A reference makes no request to a resolver that does not serve it. -/
theorem requestsTo_insert {served : Text} {r : FormReference}
    (h : registry.serving? r.kind ≠ some served) (first rest : List FormReference) :
    registry.requestsTo context served (first ++ r :: rest) =
      registry.requestsTo context served (first ++ rest) := by
  unfold requestsTo
  rw [List.filter_append, List.filter_append, List.filter_cons_of_neg (by simpa using h)]

/-- Once a reference is past, a resolver that does not serve it has answered what it had. -/
theorem of_past_of_ne {served : Text} {r : FormReference}
    (h : registry.serving? r.kind ≠ some served) (calls : Calls) :
    (calls.past registry context r).of served = calls.of served := by
  have hnone : registry.requestsTo context served [r] = [] :=
    registry.requestsTo_insert context h [] []
  rw [Calls.of_past, hnone, List.nil_append]

/-- A reference is accounted for between those before it and those after it. -/
theorem accounts_insert (calls : Calls) (first rest : List FormReference) (r : FormReference)
    (spans : List Span) :
    registry.accounts context calls (first ++ r :: rest) spans =
      registry.accounts context calls first spans ++
        ⟨r, spans[first.length]?.map (·.start), registry.outcome context calls first r⟩ ::
          registry.accounts context
            ((calls.pastAll registry context first).past registry context r) rest
            (spans.drop (first.length + 1)) := by
  rw [accounts_append, accounts_cons, outcome_pastAll, List.head?_drop, List.tail_drop]

/-- Once references are left out, the others are accounted for at the spans they had. -/
theorem accounts_eraseIdx (calls : Calls) (first rest : List FormReference) (spans : List Span) :
    registry.accounts context calls (first ++ rest) (spans.eraseIdx first.length) =
      registry.accounts context calls first spans ++
        registry.accounts context (calls.pastAll registry context first) rest
          (spans.drop (first.length + 1)) := by
  have hbefore : ∀ i < first.length, (spans.eraseIdx first.length)[i]? = spans[i]? :=
    fun i hi => List.getElem?_eraseIdx_of_lt hi
  have hafter : (spans.eraseIdx first.length).drop first.length =
      spans.drop (first.length + 1) := by
    refine List.ext_getElem? fun i => ?_
    rw [List.getElem?_drop, List.getElem?_drop, List.getElem?_eraseIdx_of_ge (by omega)]
    congr 1
    omega
  rw [accounts_append, registry.accounts_congr context hbefore, hafter]

end Registry

/-- Execution composes. Executing the references of a form in two parts, the second from the log and
the answered requests of the first and with the spans that are left, gives the log and the answered
requests of the second part, the outputs of the first part, kind by kind, before those of the
second, and the reports of the first part before those of the second. So a reference has an entry,
and an output or a report, of its own. If it is left out with its span, then all other references
have the same, but for those that its resolver serves as well, and no other resolver has answered
other requests. -/
theorem execution_composes (registry : Registry) (form : Form) (context : List (Text × Json))
    (places : List Span) (log : List Text) (calls : Calls) (first rest : List FormReference) :
    let run (references : List FormReference) :=
      Execution.ofForm registry { form with references := references } context
    let before := run first places log calls
    let after := run rest (places.drop first.length) before.log before.calls
    run (first ++ rest) places log calls =
        ⟨after.log, before.resolved.merge after.resolved (· ++ ·),
          before.diagnostics ++ after.diagnostics, after.calls⟩ ∧
      ∀ r : FormReference,
        let whole := run (first ++ r :: rest) places log calls
        let without := run (first ++ rest) (places.eraseIdx first.length) log calls
        (∃ earlier own later others,
          (Execution.start log calls).Adds (earlier ++ own :: later) whole ∧
            (Execution.start log calls).Adds (earlier ++ others) without ∧
            own = ⟨r, places[first.length]?.map (·.start),
              registry.outcome context calls first r⟩ ∧
            earlier.map (·.reference) = first ∧ later.map (·.reference) = rest ∧
            List.Forall₂ (Account.AgreesBut registry r.kind) later others) ∧
          ∀ served, registry.serving? r.kind ≠ some served →
            whole.calls.of served = without.calls.of served := by
  intro run before after
  refine ⟨Execution.steps_append_eq_following registry context log calls first rest places,
    fun r => ?_⟩
  intro whole without
  have hanswered (references : List FormReference) (spans : List Span) (served : Text) :
      (run references spans log calls).calls.of served =
        (registry.requestsTo context served references).reverse ++ calls.of served :=
    (Execution.adds_steps registry context (.start log calls) references spans).2 served
  have hwhole := Execution.adds_ofForm registry context
    { form with references := first ++ r :: rest } places log calls
  have hwithout := Execution.adds_ofForm registry context { form with references := first ++ rest }
    (places.eraseIdx first.length) log calls
  rw [Registry.accounts_insert] at hwhole
  rw [Registry.accounts_eraseIdx] at hwithout
  refine ⟨⟨_, _, _, _, hwhole, hwithout, rfl, Registry.map_reference_accounts _ _ _ _ _,
    Registry.map_reference_accounts _ _ _ _ _,
    registry.forall₂_agreesBut context (fun _ hserved => registry.of_past_of_ne context hserved _)
      rest _⟩, fun served hserved => ?_⟩
  rw [hanswered, hanswered, registry.requestsTo_insert context hserved]

end PromptScript
