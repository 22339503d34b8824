import PromptScript.Proofs.Composition.Call
import PromptScript.Proofs.Params.Entries
import PromptScript.Proofs.RoundTrip.Form
import PromptScript.Proofs.Validation.Rules

/-!
# Scripts of calls

The written form of a call is a script of that call alone. A text whose braces are balanced has the
same parameters as the payload of a call and as the body of a reference, whatever else it contains:
the call takes it from its line, where white space and one word matter, and the reference from its
braces, where names and quotes do.
-/

namespace PromptScript

namespace Item

variable {arguments indent : Text} {items : List Item}

/-- The line of a call opens no block. -/
theorem IsCallLine.blockRegions (h : IsCallLine arguments indent items) :
    Item.blockRegions items = [] := by
  have hcall {call : Item} (hword : call.word? = some .callApi) : call.opening? = none := by
    rw [opening?, hword]
  have htext (t : Token) : (text t).opening? = none := rfl
  cases h with
  | plain hword => simp only [Item.blockRegions, hcall hword]
  | indented hword => simp only [Item.blockRegions, htext, hcall hword]

end Item

/-- A line that makes a call is a script that makes the call, or reports it, and says nothing
else. -/
theorem Parsed.ofText_call {line arguments indent : Text}
    (h : Item.IsCallLine arguments indent (Item.ofTokens (Token.ofText line))) :
    (ofText line).document.apiCalls.map (·.call) = (ApiCall.added arguments).1 ∧
      (ofText line).diagnostics.map Diagnostic.unplaced = (ApiCall.added arguments).2 ∧
      (ofText line).document.references = [] ∧ (ofText line).document.sections = [] ∧
        (ofText line).document.blocks = [] := by
  refine ⟨(calls_ofText line).trans h.calls, ?_, ?_, ?_, ?_⟩
  · have hproblems := h.allProblems none []
    rw [List.append_nil] at hproblems
    exact (reports_ofText line).trans (hproblems.trans (List.append_nil _))
  · have hnone : (Lexer.ofText line).references = [] := h.references
    exact List.map_eq_nil_iff.mp ((references_ofText line).trans hnone)
  · have hregions := h.sectionRegions_append []
    rw [List.append_nil] at hregions
    have hsections := sections_ofText line
    rw [hregions] at hsections
    exact List.map_eq_nil_iff.mp hsections.symm
  · have hblocks := blocks_ofText line
    rw [h.blockRegions] at hblocks
    exact List.map_eq_nil_iff.mp hblocks.symm

/-- No rule reports a statement as malformed. -/
theorem Validation.code_ne_malformed {d : Document} {registry : Option Registry} {x : Diagnostic}
    (h : x ∈ (ofDocument d registry).diagnostics) : x.code ≠ "E_MALFORMED_STATEMENT".toList := by
  obtain ⟨rule, -, hx⟩ := List.mem_flatMap.mp h
  have hcode := Rule.code_mem_of_mem_check hx
  have hother : "E_MALFORMED_STATEMENT".toList ∉ rule.codes := by cases rule <;> decide
  exact fun heq => hother (heq ▸ hcode)

/-- The written form of a call that a text states, states the call again. If the text is on one
line, its written form is a script that makes this call and says nothing else, and its call is not
malformed. -/
theorem calls_survive_writing {t : Text} {call : ApiCall} (h : ApiCall.ofText t = .ok call) :
    (∃ rest, call.render = "CALL API ".toList ++ rest ∧ ApiCall.ofText rest = .ok call) ∧
    ('\n' ∉ t → ∀ registry : Option Registry,
      let compiled := Compiled.ofText call.render registry
      compiled.document.apiCalls.map (·.call) = [call] ∧ compiled.document.references = [] ∧
        compiled.document.sections = [] ∧ compiled.document.blocks = [] ∧
        ∀ x ∈ compiled.diagnostics, x.code ≠ "E_MALFORMED_STATEMENT".toList) := by
  have hread := ApiCall.ofText_arguments h
  refine ⟨⟨call.arguments, call.render_eq, hread⟩, fun hline registry => ?_⟩
  have hindent : List.all [] Piece.isHorizontal = true := rfl
  obtain ⟨-, hitems⟩ := Text.items_call hindent (ApiCall.not_mem_arguments h hline) (Or.inl rfl)
  rw [List.nil_append, List.append_nil, ← ApiCall.render_eq] at hitems
  have hadded : ApiCall.added (Text.trim call.arguments) = ([call], []) := by
    rw [ApiCall.added_trim, ApiCall.added, hread]
  obtain ⟨hcalls, hreports, hreferences, hsections, hblocks⟩ := Parsed.ofText_call hitems
  rw [hadded] at hcalls hreports
  refine ⟨hcalls, hreferences, hsections, hblocks, fun x hx => ?_⟩
  rcases List.mem_append.mp hx with hx | hx
  · rw [List.map_eq_nil_iff.mp hreports] at hx
    cases hx
  · exact Validation.code_ne_malformed hx

/-- A target may contain dots, quotes and braces, and a payload the keyword. -/
theorem calls_survive_writing_specimen :
    let t := " a\"\x7b.b.@c\u00a0WITH \u3000k: v WITH, n: \x7b1\x7d ".toList
    let call : ApiCall := ⟨.service "a\"\x7b".toList "b.@c".toList, "k: v WITH, n: \x7b1\x7d".toList,
      .ofList [("k".toList, "v WITH".toList), ("n".toList, "\x7b1\x7d".toList)]⟩
    ApiCall.ofText t = .ok call ∧ '\n' ∉ t ∧
    (∃ rest, call.render = "CALL API ".toList ++ rest ∧ ApiCall.ofText rest = .ok call) ∧
      let compiled := Compiled.ofText call.render none
      compiled.document.apiCalls.map (·.call) = [call] ∧ compiled.document.references = [] ∧
        compiled.document.sections = [] ∧ compiled.document.blocks = [] ∧
        ∀ x ∈ compiled.diagnostics, x.code ≠ "E_MALFORMED_STATEMENT".toList := by
  intro t call
  have h : ApiCall.ofText t = .ok call := by rfl
  have hline : '\n' ∉ t := by decide
  obtain ⟨hread, hcompiled⟩ := calls_survive_writing h
  exact ⟨h, hline, hread, hcompiled hline none⟩

namespace ApiCall

/-- The call of a target with a text in braces as its payload. -/
def braced (target : ApiTarget) (body : Text) : ApiCall :=
  ⟨target, '{' :: (body ++ ['}']), Params.ofBody body⟩

/-- A call with a payload in braces is written with the braces after the word WITH. -/
theorem render_braced (target : ApiTarget) (body : Text) : (braced target body).render =
    "CALL API ".toList ++ target.render ++ " WITH ".toList ++ '{' :: (body ++ ['}']) :=
  (List.append_assoc ..).symm

/-- The body of a payload in braces is what stands between them. -/
theorem payloadBody_braced (body : Text) : payloadBody ('{' :: (body ++ ['}'])) = body := by
  simp [payloadBody, Text.dropStart?, Text.dropLast?]

/-- A call of a readable target with a payload in braces is well formed. -/
theorem isWellFormed_braced {target : ApiTarget} (htarget : target? target.render = .ok target)
    (hsolid : target.render.all (!Text.isSpace ·) = true) (body : Text) :
    (braced target body).IsWellFormed where
  target := htarget
  target_solid := hsolid
  payload_trim := Text.trim_between rfl rfl body
  params := congrArg Params.ofBody (payloadBody_braced body).symm

end ApiCall

/-- What a passage leads to is the form of the script. -/
theorem Outline.Passes.form_ofText {source : Text} {result : Outline} {ls : Bool}
    (h : (idle [] [] [] []).Passes true source result ls) (registry : Option Registry) :
    (Compiled.ofText source registry).form = result.close.form := by
  obtain ⟨free, q, -, hread⟩ := h none .start [] rfl
  rw [List.append_nil, read, read, Lexer.tokens_ahead_nil, Item.ofTokens, if_pos rfl] at hread
  have hall : Outline.empty.applyAll (Item.ofTokens (Token.ofText source)) = result := hread
  have hform : (Compiled.ofText source registry).form = _ := lower_ofText source
  rw [hform, hall]

/-- The form of a script with a call and a reference that have one text in braces. -/
theorem form_ofText_braced {target : ApiTarget}
    (htarget : ApiCall.target? target.render = .ok target)
    (hsolid : target.render.all (!Text.isSpace ·) = true) {r : FormReference} (hr : r.IsWellFormed)
    {body : Text} (hline : '\n' ∉ body) (hclean : closesCleanly body = true)
    (registry : Option Registry) :
    (Compiled.ofText ((ApiCall.braced target body).render ++ ['\n'] ++
        (r.lead ++ '{' :: (body ++ ['}', '\n']))) registry).form =
      { type := Form.scriptType
        version := Form.currentVersion
        task := []
        action := []
        goal := []
        references := [.ofParts r.kind r.target (Text.trim body)]
        blocks := []
        apiCalls := [.braced target body] } := by
  have hread := (ApiCall.isWellFormed_braced htarget hsolid body).ofText_arguments
  have hword : '\n' ∉ target.render := fun hmem =>
    absurd (List.all_eq_true.mp hsolid _ hmem) (by decide)
  have harguments : '\n' ∉ (ApiCall.braced target body).arguments := by
    simp [ApiCall.arguments, ApiCall.braced, hword, hline]
  have hcall : (Outline.idle [] [] [] []).Passes true _ _ true :=
    Outline.passes_call hread harguments
  exact (hcall.trans (Outline.passes_braced hr hclean)).form_ofText registry

/-- A text on one line whose braces are balanced is the payload of a call and the body of a
reference alike, and they have the same parameters, whatever else it contains. -/
theorem payload_params_eq_body_params {b : Text} (hline : '\n' ∉ b)
    (hclean : closesCleanly b = true) (registry : Option Registry) :
    ∃ call reference,
      let form := (Compiled.ofText ("CALL API s.e WITH ".toList ++ '{' :: b ++ ['}', '\n'] ++
        "@k".toList ++ '{' :: b ++ ['}', '\n']) registry).form
      form.apiCalls = [call] ∧ form.references = [reference] ∧
        call.payload = '{' :: b ++ ['}'] ∧ reference.body = Text.trim b ∧
          call.params = reference.params := by
  have hr : (FormReference.ofParts "k".toList none []).IsWellFormed :=
    ⟨by decide, by decide, by decide, by decide, rfl, rfl⟩
  have htarget : ApiCall.target? (ApiTarget.service "s".toList "e".toList).render =
      .ok (.service "s".toList "e".toList) := rfl
  have hform := form_ofText_braced htarget (by decide) hr hline hclean registry
  have hsource : (ApiCall.braced (.service "s".toList "e".toList) b).render ++ ['\n'] ++
      ((FormReference.ofParts "k".toList none []).lead ++ '{' :: (b ++ ['}', '\n'])) =
        "CALL API s.e WITH ".toList ++ '{' :: b ++ ['}', '\n'] ++ "@k".toList ++
          '{' :: b ++ ['}', '\n'] := by
    have hcall : "CALL API ".toList ++ (ApiTarget.service "s".toList "e".toList).render ++
        " WITH ".toList = "CALL API s.e WITH ".toList := by decide
    have hlead : (FormReference.ofParts "k".toList none []).lead = "@k".toList := rfl
    rw [ApiCall.render_braced, hcall, hlead]
    simp only [List.append_assoc, List.cons_append, List.nil_append]
  rw [hsource] at hform
  have hparams : Params.ofBody b = Params.ofBody (Text.trim b) := (Params.ofBody_trim b).symm
  exact ⟨.braced (.service "s".toList "e".toList) b, .ofParts "k".toList none (Text.trim b),
    congrArg Form.apiCalls hform, congrArg Form.references hform, rfl, rfl, hparams⟩

/-- Marks of references and comments, quotes, and the keyword of a payload make no difference. -/
theorem payload_params_eq_body_params_specimen :
    let b := " \"a\": \"x, @f:\\\"\", n: \x7bm: [1]\x7d, # c: WITH @k\x7b\x7d ".toList
    '\n' ∉ b ∧ closesCleanly b = true ∧ ∃ call reference,
      let form := (Compiled.ofText ("CALL API s.e WITH ".toList ++ '{' :: b ++ ['}', '\n'] ++
        "@k".toList ++ '{' :: b ++ ['}', '\n']) none).form
      form.apiCalls = [call] ∧ form.references = [reference] ∧
        call.payload = '{' :: b ++ ['}'] ∧ reference.body = Text.trim b ∧
          call.params = reference.params := by
  intro b
  have hline : '\n' ∉ b := by decide
  have hclean : closesCleanly b = true := by decide
  exact ⟨hline, hclean, payload_params_eq_body_params hline hclean none⟩

end PromptScript
