import PromptScript.Engine
import PromptScript.Proofs.Composition.Moves
import PromptScript.Proofs.Parsing.Problems

/-!
# Places make no difference

Tokens of the same kinds and texts group into the same items, lead to the same outline and have the
same problems, wherever they stand. So the form of a script and its reports, but for their places,
depend on the kinds and the texts of its tokens alone.
-/

namespace PromptScript

/-- The token at the start of a script. -/
def Token.unplaced (t : Token) : Token :=
  { t with place := .start }

/-- Moving a token to the start changes nothing but its place. -/
theorem Token.onlyMoves_unplaced : OnlyMoves unplaced :=
  ⟨fun _ => rfl, fun _ => rfl⟩

namespace Item

variable {f : Token → Token} (hf : Token.OnlyMoves f)
include hf

/-- What an outline finds in a reference does not depend on places. -/
theorem found_map (name target : Option Token) (tail : Tail) :
    found (name.map f) (target.map f) (tail.map f) = found name target tail := by
  have hbody : (tail.map f).body = tail.body := by
    cases tail with
    | none => rfl
    | braced opening inner closing => exact textOf_map hf inner
    | unterminated mark recovered => exact textOf_map hf recovered
  simp only [found, hbody, Option.map_map, Option.isSome_map, Function.comp_def, hf.text]

/-- Whether a reference ends its line does not depend on places. -/
theorem endsLine_map (tail : Tail) : (tail.map f).endsLine = tail.endsLine := by
  cases tail with
  | none | braced => rfl
  | unterminated mark recovered =>
    simp only [Tail.map, Tail.endsLine, List.getLast?_map, Option.any_map, endsLine_of_onlyMoves hf]

/-- The problems of an item do not depend on places. -/
theorem problems_map (s : Standing) (item : Item) : (item.map f).problems s = item.problems s := by
  cases item with
  | header | text | stray => rfl
  | statement keyword rest =>
    simp only [map, problems, hf.text, Option.map_map, Function.comp_def]
  | reference start name target tail =>
    have htail (kind : Text) : (tail.map f).problems kind = tail.problems kind := by
      cases tail with
      | none => rfl
      | braced opening inner closing =>
        simp only [Tail.map, Tail.problems, deepBrace?_map hf, Option.isSome_map]
      | unterminated mark recovered => simp only [Tail.map, Tail.problems, hf.text]
    simp only [map, problems, found_map hf, htail]

/-- Where an item leads to does not depend on places. -/
theorem past_map (s : Standing) (item : Item) : (item.map f).past s = item.past s := by
  cases item with
  | statement keyword rest => simp only [map, past, hf.text]
  | _ => rfl

/-- The problems of items in a row do not depend on places. -/
theorem allProblems_map (s : Standing) (items : List Item) :
    allProblems s (items.map (map f)) = allProblems s items := by
  induction items generalizing s with
  | nil => rfl
  | cons item items ih =>
    rw [List.map_cons, allProblems, allProblems, problems_map hf, past_map hf, ih]

end Item

namespace Outline

variable {f : Token → Token} (hf : Token.OnlyMoves f) (o : Outline)
include hf

/-- An item changes an outline in the same way wherever it stands. -/
theorem apply_map (item : Item) : o.apply (item.map f) = o.apply item := by
  cases item with
  | header | stray => rfl
  | statement keyword rest =>
    simp only [Item.map, apply, hf.text, Option.map_map, Function.comp_def]
  | text t => simp only [Item.map, apply, hf.text]
  | reference start name target tail =>
    simp only [Item.map, apply, Item.found_map hf, Item.endsLine_map hf]

/-- Items in a row lead to the same outline wherever they stand. -/
theorem applyAll_map (items : List Item) : o.applyAll (items.map (Item.map f)) = o.applyAll items := by
  induction items generalizing o with
  | nil => rfl
  | cons item items ih => rw [List.map_cons, applyAll_cons, applyAll_cons, apply_map hf, ih]

end Outline

/-- The document of an outline, with all of its parts at the start of a script. -/
def Outline.document (o : Outline) : Document where
  sections := o.sections.map fun s => ⟨s.1, s.2, ⟨.start, .start⟩⟩
  references := o.references.map fun r => ⟨r.kind, r.target, r.body, r.params, ⟨.start, .start⟩⟩
  blocks := o.blocks.map fun b => ⟨b, ⟨.start, .start⟩⟩
  apiCalls := o.apiCalls.map fun c => ⟨c, ⟨.start, .start⟩⟩

namespace Rule

variable (d : Draft) (registry : Option Registry)

/-- The sections of the document of an outline are those of the draft, but for their spans. -/
theorem sectionsOf_document (kind : SectionKind) :
    d.outline.document.sectionsOf kind =
      (d.document.sectionsOf kind).map fun s => { s with span := ⟨.start, .start⟩ } := by
  simp only [Document.sectionsOf, Outline.document, Draft.outline, List.map_map, List.filter_map,
    Function.comp_def]

/-- The kinds of the document of an outline are those of the draft. -/
theorem kinds_document : (kinds d.outline.document).map Prod.fst = (kinds d.document).map Prod.fst := by
  simp only [kinds, Outline.document, Draft.outline, Reference.lower, List.map_append, List.map_map,
    List.filterMap_map, List.map_filterMap, Function.comp_def]
  congr 2
  funext c
  cases c.call.target <;> rfl

/-- What a rule reports depends on the places of a document in the places of its reports alone. -/
theorem check_document (rule : Rule) :
    (check d.outline.document registry rule).map Diagnostic.unplaced =
      (check d.document registry rule).map Diagnostic.unplaced := by
  cases rule with
  | requiredSections =>
    simp only [check, List.map_flatMap]
    congr 1
    funext kind
    rw [sectionReports, sectionReports, sectionsOf_document]
    cases d.document.sectionsOf kind with
    | nil => rfl
    | cons s others =>
      simp only [List.map_cons, List.map_map]
      rfl
  | emptySection =>
    simp only [check, Outline.document, Draft.outline, List.map_map, List.filter_map]
    rfl
  | referenceKind =>
    have hreports (entries : List (Text × Span)) :
        ((entries.filter fun entry => !isValidKind entry.1).map fun entry =>
          malformedKind entry.1 entry.2).map Diagnostic.unplaced =
            ((entries.map Prod.fst).filter fun kind => !isValidKind kind).map fun kind =>
              (malformedKind kind ⟨.start, .start⟩).unplaced := by
      simp only [List.map_map, List.filter_map]
      rfl
    rw [check, check, hreports, hreports, kinds_document]
  | unresolvedReference =>
    cases registry with
    | none => rfl
    | some registry =>
      simp only [check, Outline.document, Draft.outline, List.map_map, List.filter_map]
      rfl

end Rule

/-- Scripts whose tokens have the same kinds and texts have the same form and the same reports,
wherever their tokens stand. -/
theorem Compiled.congr_of_unplaced {a b : Text}
    (h : (Token.ofText a).map Token.unplaced = (Token.ofText b).map Token.unplaced)
    (registry : Option Registry) :
    (ofText a registry).form = (ofText b registry).form ∧
      (ofText a registry).diagnostics.map Diagnostic.unplaced =
        (ofText b registry).diagnostics.map Diagnostic.unplaced := by
  have hf := Token.onlyMoves_unplaced
  have hitems := congrArg Item.ofTokens h
  rw [Item.ofTokens_map hf, Item.ofTokens_map hf] at hitems
  have houtline : Outline.empty.applyAll (Item.ofTokens (Token.ofText a)) =
      Outline.empty.applyAll (Item.ofTokens (Token.ofText b)) := by
    rw [← Outline.applyAll_map hf, hitems, Outline.applyAll_map hf]
  have hreports : (Parsed.ofText a).diagnostics.map Diagnostic.unplaced =
      (Parsed.ofText b).diagnostics.map Diagnostic.unplaced := by
    rw [Parsed.reports_ofText, Parsed.reports_ofText, ← Item.allProblems_map hf, hitems,
      Item.allProblems_map hf]
  have hrules (source : Text) :
      (Validation.ofDocument (Parsed.ofText source).document registry).diagnostics.map
          Diagnostic.unplaced =
        Rule.all.flatMap fun rule => (Rule.check (Outline.empty.applyAll
          (Item.ofTokens (Token.ofText source))).close.document registry rule).map
            Diagnostic.unplaced := by
    rw [← outline_ofText]
    simp only [Rule.check_document]
    exact List.map_flatMap
  constructor
  · have hform (source : Text) : (ofText source registry).form = _ := lower_ofText source
    rw [hform, hform, houtline]
  · have hsplit (source : Text) : (ofText source registry).diagnostics.map Diagnostic.unplaced =
        (Parsed.ofText source).diagnostics.map Diagnostic.unplaced ++
          (Validation.ofDocument (Parsed.ofText source).document registry).diagnostics.map
            Diagnostic.unplaced :=
      List.map_append
    rw [hsplit, hsplit, hreports, hrules, hrules, houtline]

end PromptScript
