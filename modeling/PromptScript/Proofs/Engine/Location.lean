import PromptScript.Proofs.Engine.Agreement
import PromptScript.Proofs.Parsing.Bodies

/-!
# Where the reports of a run stand

A run reports that a kind has no resolver, or that its resolver failed, at the at sign of the
reference. The place travels from the lexer through the span of the reference and the list of spans
that the execution is given; the reports come in the order of the script, so their places strictly
increase.
-/

namespace PromptScript

namespace Lexer

variable {rest : Text} {ss : List Stretch}

/-- The token that begins a reference is an at sign. -/
theorem Phrases.text_of_referenceStart {lineStart : Bool} {before : Option Char}
    (h : Phrases lineStart before rest ss) (p : Position) :
    ∀ t ∈ Stretch.tokens p ss, t.kind = .referenceStart → t.text = ['@'] := by
  induction h generalizing p with
  | nil => simp [Stretch.tokens]
  | @cons lineStart ls before rest after ss ts h _ ih =>
    intro t ht hkind
    rw [Stretch.tokens_append] at ht
    rcases List.mem_append.mp ht with ht | ht
    · cases h with
      | reference _ _ _ h =>
        rcases List.mem_cons.mp ht with rfl | ht
        · rfl
        · have hinside := h.kind_not_mem _ _ t ht
          exact absurd (hkind ▸ hinside) (by decide)
      | statement =>
        have hother : t.kind = .statementKeyword ∨ t.kind = .text := by
          rcases List.mem_cons.mp ht with rfl | ht
          · exact Or.inl rfl
          · unfold Stretch.ofText at ht
            split at ht
            · cases ht
            · rw [List.mem_singleton.mp ht]
              exact Or.inr rfl
        simp [hkind] at hother
      | comment => cases ht
      | indent | header | text =>
        rw [List.mem_singleton.mp ht] at hkind
        cases hkind
    · exact ih _ t ht hkind

end Lexer

/-- The token that begins a reference of a script is an at sign. -/
theorem Token.text_of_referenceStart {source : Text} {t : Token} (ht : t ∈ ofText source)
    (hkind : t.kind = .referenceStart) : t.text = ['@'] := by
  obtain ⟨ss, h⟩ := Lexer.exists_phrases true none source
  have htokens : ofText source = _ := h.tokens .start
  rw [htokens] at ht
  rcases List.mem_append.mp ht with ht | ht
  · exact h.text_of_referenceStart .start t ht hkind
  · rw [List.mem_singleton.mp ht] at hkind
    cases hkind

namespace ReferenceHead

/-- The at sign of a head is a token of the script. -/
theorem start_mem {source : Text} {head : ReferenceHead}
    (h : head ∈ Token.referenceHeads (Token.ofText source)) :
    head.start ∈ Token.ofText source ∧ head.start.kind = .referenceStart := by
  have hmem := List.mem_map_of_mem (f := ReferenceHead.start) h
  rw [Token.map_start_referenceHeads] at hmem
  obtain ⟨htoken, hstart⟩ := List.mem_filter.mp hmem
  exact ⟨htoken, by simpa [Token.isReferenceStart] using hstart⟩

/-- A head begins at an at sign of the script, which stands where the text before it ends. -/
theorem exists_at {source : Text} {head : ReferenceHead}
    (h : head ∈ Token.referenceHeads (Token.ofText source)) :
    ∃ before rest, source = before ++ '@' :: rest ∧ head.start.place = .after before := by
  obtain ⟨before, rest, hstands⟩ := Token.standsBetween_ofText source head h
  obtain ⟨htoken, hkind⟩ := start_mem h
  have hsource := hstands.source_eq
  have htext : head.text = '@' :: Draft.textOf (head.name.toList ++ head.target.toList) := by
    rw [ReferenceHead.text, Draft.textOf, List.flatMap_cons,
      Token.text_of_referenceStart htoken hkind]
    rfl
  rw [htext, List.cons_append] at hsource
  exact ⟨before, _, hsource, hstands.place_eq⟩

/-- The heads of a script stand one after another. -/
theorem pairwise_place (source : Text) :
    ((Token.referenceHeads (Token.ofText source)).map (·.start.place)).Pairwise (· < ·) := by
  have hplaces : (Token.referenceHeads (Token.ofText source)).map (·.start.place) =
      ((Token.ofText source).filter Token.isReferenceStart).map (·.place) := by
    rw [← Token.map_start_referenceHeads, List.map_map]
    rfl
  rw [hplaces, List.pairwise_map]
  exact (Token.pairwise_ofText source).filter _

end ReferenceHead

/-- Whether a report says what became of a reference: that its kind has no resolver, or that its
resolver failed. -/
def Diagnostic.isOnReference (x : Diagnostic) : Bool :=
  x.code == "W_UNRESOLVED_REF".toList || x.code == "E_RESOLVER".toList

/-- No problem of a document is one that a run finds with a reference. -/
theorem Document.Problem.not_isOnReference (problem : Document.Problem) (span : Span) :
    (problem.diagnostic span).isOnReference = false := by
  cases problem <;> rfl

/-- What an account reports is about its reference. -/
theorem Account.isOnReference_of_report? {a : Account} {x : Diagnostic} (h : a.report? = some x) :
    x.isOnReference = true := by
  unfold report? at h
  split at h <;> cases h <;> rfl

/-- How a report of a run stands to a script, to the head of a reference in it and to that reference
in the form. -/
structure Diagnostic.PointsAt (x : Diagnostic) (source : Text) (head : ReferenceHead)
    (r : FormReference) : Prop where
  /-- The head names the kind of the reference. -/
  kind_eq : r.kind = head.kind
  /-- The report says that the kind has no resolver, or that its resolver failed. -/
  content :
    (x.code = "W_UNRESOLVED_REF".toList ∧ x.severity = .warning ∧
      x.message = "No capability registered for '@".toList ++ r.kind ++ ['\'']) ∨
    (x.code = "E_RESOLVER".toList ∧ x.severity = .error ∧
      ∃ error, x.message = "Resolver for '@".toList ++ r.kind ++ "' failed: ".toList ++ error)
  /-- The lexer gives the at sign as the start of a reference. -/
  emitted : head.start ∈ Token.ofText source ∧ head.start.kind = .referenceStart
  /-- The at sign stands in the script where the text before it ends. -/
  stands : ∃ before rest, source = before ++ '@' :: rest ∧ head.start.place = .after before
  /-- The report is about the line of the at sign. -/
  line_eq : x.line = some head.start.place.line
  /-- The report is about the column of the at sign. -/
  column_eq : x.column = some head.start.place.column

namespace Account

/-- Whether an account is of the reference that a head begins. -/
structure IsOf (a : Account) (head : ReferenceHead) : Prop where
  /-- The reference is of the kind that the head names. -/
  kind_eq : a.reference.kind = head.kind
  /-- The reference is known to begin at the at sign. -/
  place_eq : a.place = some head.start.place

/-- What is reported of the reference that a head begins points at it. -/
theorem IsOf.pointsAt {a : Account} {source : Text} {head : ReferenceHead} {x : Diagnostic}
    (h : a.IsOf head) (hhead : head ∈ Token.referenceHeads (Token.ofText source))
    (hx : a.report? = some x) : x.PointsAt source head a.reference := by
  have hemitted := ReferenceHead.start_mem hhead
  have hstands := ReferenceHead.exists_at hhead
  unfold report? at hx
  rw [h.place_eq] at hx
  split at hx
  · cases hx
    exact ⟨h.kind_eq, Or.inl ⟨rfl, rfl, rfl⟩, hemitted, hstands, rfl, rfl⟩
  · cases hx
  · cases hx
    exact ⟨h.kind_eq, Or.inr ⟨rfl, rfl, _, rfl⟩, hemitted, hstands, rfl, rfl⟩

end Account

/-- What is reported of references in a row, each with the reference and the head it begins with. -/
theorem Account.exists_concerned {heads : List ReferenceHead} {accounts : List Account}
    (h : List.Forall₂ (fun head a => Account.IsOf a head) heads accounts) (source : Text)
    (hheads : ∀ head ∈ heads, head ∈ Token.referenceHeads (Token.ofText source)) :
    ∃ concerned, concerned.Sublist (heads.zip (accounts.map (·.reference))) ∧
      List.Forall₂ (fun (x : Diagnostic) p => x.PointsAt source p.1 p.2)
        (accounts.filterMap Account.report?) concerned := by
  induction h with
  | nil => exact ⟨[], .slnil, .nil⟩
  | @cons head a heads accounts hof _ ih =>
    obtain ⟨hhead, hheads⟩ := List.forall_mem_cons.mp hheads
    obtain ⟨concerned, hsublist, hpoints⟩ := ih hheads
    rw [List.map_cons, List.zip_cons_cons]
    cases hreport : a.report? with
    | none =>
      rw [List.filterMap_cons_none hreport]
      exact ⟨concerned, hsublist.cons _, hpoints⟩
    | some x =>
      rw [List.filterMap_cons_some hreport]
      exact ⟨(head, a.reference) :: concerned, hsublist.cons_cons _,
        .cons (hof.pointsAt hhead hreport) hpoints⟩

/-- The references of a document are accounted for at the at signs of their heads. -/
theorem Registry.forall₂_accounts (registry : Registry) (context : List (Text × Json))
    {heads : List ReferenceHead} {references : List Reference}
    (h : List.Forall₂ (fun head (r : Reference) => r.IsNamedBy head) heads references)
    (calls : Calls) :
    List.Forall₂ (fun head a => Account.IsOf a head) heads
      (registry.accounts context calls (references.map Reference.lower)
        (references.map (·.span))) := by
  induction h generalizing calls with
  | nil => exact .nil
  | cons hnamed _ ih =>
    rw [List.map_cons, List.map_cons, accounts_cons]
    exact .cons ⟨hnamed.kind, congrArg some hnamed.start⟩ (ih _)

/-- The reports of a run about missing and failing resolvers are in order those of some of the
references of the script. Each has the line and the column of the at sign at which the lexer begins
its reference, and these places strictly increase. -/
theorem reports_located (e : Engine) (source : Text) (context : List (Text × Json)) {run : Run}
    {after : Engine} (hrun : e.run source context = (.ok run, after)) :
    ∃ concerned : List (ReferenceHead × FormReference),
      concerned.Sublist ((Token.referenceHeads (Token.ofText source)).zip run.form.references) ∧
      List.Forall₂ (fun (x : Diagnostic) p => x.PointsAt source p.1 p.2)
        (run.diagnostics.filter (·.isOnReference)) concerned ∧
      (concerned.map (·.1.start.place)).Pairwise (· < ·) := by
  obtain ⟨-, hform, hdiagnostics⟩ := e.of_run source context hrun
  have hreports : run.diagnostics.filter (·.isOnReference) =
      (e.accounts source context).filterMap Account.report? := by
    have hparse : (e.validate source).parseDiagnostics.filter (·.isOnReference) = [] := by
      refine List.filter_eq_nil_iff.mpr fun x hx => ?_
      obtain ⟨problem, span, -, rfl⟩ := Parsed.exists_problem_of_mem hx
      simp [Document.Problem.not_isOnReference]
    rw [hdiagnostics, List.filter_append, hparse, List.nil_append]
    refine List.filter_eq_self.mpr fun x hx => ?_
    obtain ⟨a, -, ha⟩ := List.mem_filterMap.mp hx
    exact Account.isOnReference_of_report? ha
  have haccounts := e.registry.forall₂_accounts context (forall₂_references source) e.calls
  obtain ⟨concerned, hsublist, hpoints⟩ :=
    Account.exists_concerned haccounts source fun _ h => h
  rw [Registry.map_reference_accounts] at hsublist
  have hlength := (forall₂_references source).length_eq
  have hheads : (concerned.map (·.1)).Sublist (Token.referenceHeads (Token.ofText source)) := by
    have hfirst := hsublist.map Prod.fst
    rwa [List.map_fst_zip (by simp [hlength])] at hfirst
  refine ⟨concerned, by rw [hform]; exact hsublist, by rw [hreports]; exact hpoints, ?_⟩
  have hplaces := (ReferenceHead.pairwise_place source).sublist (hheads.map (·.start.place))
  rwa [List.map_map] at hplaces

/-- With a tool that is down, a script that refers to the tool over two lines and to a database
after it has a report at each of the two at signs. -/
theorem reports_located_down :
    let e := Engine.ofRegistry
      ⟨Dictionary.empty.insert "tool".toList fun _ _ => .error ⟨["down".toList]⟩⟩
    let source := "TASK: x @tool:a\x7b q\n r \x7d @db\nACTION: y\nGOAL: z".toList
    ∃ run after, e.run source [] = (.ok run, after) ∧
      (run.diagnostics.filter (·.isOnReference)).map (fun x => (x.line, x.column)) =
        [(some 1, some 9), (some 2, some 6)] ∧
      ∃ concerned : List (ReferenceHead × FormReference),
        concerned.Sublist ((Token.referenceHeads (Token.ofText source)).zip run.form.references) ∧
        List.Forall₂ (fun (x : Diagnostic) p => x.PointsAt source p.1 p.2)
          (run.diagnostics.filter (·.isOnReference)) concerned ∧
        (concerned.map (·.1.start.place)).Pairwise (· < ·) := by
  intro e source
  have hok : (e.validate source).ok = true := by decide +kernel
  obtain ⟨run, after, hrun, -⟩ := e.exists_run_of_valid source [] hok
  have hplaces : (e.run source []).1.toOption.map (fun run =>
      (run.diagnostics.filter (·.isOnReference)).map fun x => (x.line, x.column)) =
        some [(some 1, some 9), (some 2, some 6)] := by decide +kernel
  rw [hrun] at hplaces
  exact ⟨run, after, hrun, Option.some.inj hplaces, reports_located e source [] hrun⟩

end PromptScript
