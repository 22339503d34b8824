import PromptScript.Proofs.RoundTrip.Origin
import PromptScript.Proofs.RoundTrip.Recover
import PromptScript.Proofs.RoundTrip.Yield

/-!
# The law of the round trip

Compiling the written form of a script should give the form of the script again. It does where the
form is legible, and nowhere else. The same holds of the references alone, written without the
texts, the blocks and the calls of the script.
-/

namespace PromptScript

open Lexer (IsFree)

namespace Text

/-- Texts that end their lines do so in a row. -/
theorem endsLines_append {s t : Text} (hs : s = [] ∨ s.getLast? = some '\n')
    (ht : t = [] ∨ t.getLast? = some '\n') : s ++ t = [] ∨ (s ++ t).getLast? = some '\n' := by
  rcases ht with rfl | ht
  · rwa [List.append_nil]
  · exact Or.inr (by rw [List.getLast?_append, ht, Option.some_or])

/-- Parts that end with line breaks in a row end with one, if there are any. -/
theorem endsLines_flatMap {α : Type} {f : α → Text} {xs : List α}
    (h : ∀ x ∈ xs, (f x).getLast? = some '\n') :
    xs.flatMap f = [] ∨ (xs.flatMap f).getLast? = some '\n' := by
  induction xs with
  | nil => exact Or.inl rfl
  | cons x xs ih =>
    rw [List.flatMap_cons]
    exact endsLines_append (Or.inr (h x List.mem_cons_self))
      (ih fun y hy => h y (List.mem_cons_of_mem x hy))

end Text

namespace Form

variable {f : Form}

/-- A form that is read back from its written form leads to itself from the start. -/
theorem yields_of_form_ofText_render (registry : Option Registry)
    (h : (Compiled.ofText f.render registry).form = f) :
    f.Yields (.idle [] [] [] []) true (f.renderSection .task ++ (f.renderSection .action ++
      (f.renderSection .goal ++ (f.blocks.flatMap Block.render ++
        f.apiCalls.flatMap fun call => call.render ++ ['\n'])))) := by
  refine ⟨rfl, ?_, none, .start, rfl, ?_⟩
  · have hsection (kind : SectionKind) :
        f.renderSection kind = [] ∨ (f.renderSection kind).getLast? = some '\n' :=
      Or.inr (List.getLast?_eq_some_iff.mpr
        ⟨kind.keyword ++ ": ".toList ++ f.textOf kind ++ ['\n'], by simp [renderSection]⟩)
    have hblocks : ∀ b ∈ f.blocks, b.render.getLast? = some '\n' := by
      intro b _
      rw [Block.render_branches, ← List.append_assoc, List.getLast?_append]
      rfl
    have hcalls : ∀ call ∈ f.apiCalls, (call.render ++ ['\n']).getLast? = some '\n' :=
      fun call _ => List.getLast?_concat
    exact Text.endsLines_append (hsection _) (Text.endsLines_append (hsection _)
      (Text.endsLines_append (hsection _) (Text.endsLines_append (Text.endsLines_flatMap hblocks)
        (Text.endsLines_flatMap hcalls))))
  · have hform : (Compiled.ofText f.render registry).form =
        (Outline.empty.applyAll (Item.ofTokens (Token.ofText f.render))).close.form :=
      lower_ofText f.render
    have hrender : f.renderSection .task ++ (f.renderSection .action ++ (f.renderSection .goal ++
        (f.blocks.flatMap Block.render ++ f.apiCalls.flatMap fun call => call.render ++ ['\n']))) ++
          f.references.flatMap FormReference.render = f.render := by
      simp [render, SectionKind.all]
    rw [hrender]
    exact hform.symm.trans h

/-- A form that is read back from its written form is legible. -/
theorem isLegible_of_form_ofText_render (hf : f.IsWellFormed) (registry : Option Registry)
    (h : (Compiled.ofText f.render registry).form = f) : f.isLegible = true := by
  obtain ⟨htask, haction⟩ := (yields_of_form_ofText_render registry h).pass_section hf rfl
  obtain ⟨haction, hgoal⟩ := haction.pass_section hf rfl
  obtain ⟨hgoal, hrest⟩ := hgoal.pass_section hf rfl
  obtain ⟨hblocks, hcalls⟩ := hrest.isLegible_blocks hf (List.nil_append _).symm
  rw [← List.append_nil (f.apiCalls.flatMap _)] at hcalls
  have hend := hcalls.passes (Outline.passes_calls hf.apiCalls) rfl
  obtain ⟨before, p, hb, hread⟩ := hend.read
  have hreferences : FormReference.areLegible f.references = true :=
    FormReference.areLegible_of_references hf.references hb (Yields.references_read rfl hread)
  simp [isLegible, SectionKind.all, htask, haction, hgoal, hblocks, hreferences]

/-- The written form of a script compiles to the form again exactly if the form is legible. -/
theorem compile_render_iff (source : Text) :
    (Compiled.ofText (Compiled.ofText source none).form.render none).form =
        (Compiled.ofText source none).form ↔
      (Compiled.ofText source none).form.isLegible = true := by
  have hf := isWellFormed_ofText source none
  exact ⟨isLegible_of_form_ofText_render hf none, fun h => form_ofText_render hf h none⟩

/-- Text that follows a reference on a line becomes a comment where the line is written without
the reference. -/
theorem compile_render_fails :
    ¬∀ source : Text, (Compiled.ofText (Compiled.ofText source none).form.render none).form =
      (Compiled.ofText source none).form :=
  fun h => absurd (h "TASK: a\n@x{q}# note\n".toList) (by decide +kernel)

/-- A form that keeps nothing but its references. -/
def onlyReferences (f : Form) : Form :=
  { f with task := [], action := [], goal := [], blocks := [], apiCalls := [] }

/-- What is left of a form that a script can say is one that a script can say. -/
theorem IsWellFormed.onlyReferences (h : f.IsWellFormed) : f.onlyReferences.IsWellFormed where
  type_eq := h.type_eq
  version_eq := h.version_eq
  sections_trim kind := by cases kind <;> rfl
  sections_lines kind := by cases kind <;> simp [Form.onlyReferences, textOf, Text.lines]
  blocks _ hb := absurd hb List.not_mem_nil
  apiCalls _ hcall := absurd hcall List.not_mem_nil
  references := h.references

/-- Without texts and blocks, a form is legible if its references are told apart. -/
theorem isLegible_onlyReferences (f : Form) :
    f.onlyReferences.isLegible = FormReference.areLegible f.references := by
  simp [isLegible, onlyReferences, SectionKind.all, textOf, Text.lines, Text.readsAsText]

/-- The empty sections that a form of references is written with are a passage. -/
theorem passes_onlyReferences (f : Form) :
    (Outline.idle [] [] [] []).Passes true (SectionKind.all.flatMap f.onlyReferences.renderSection)
      (Outline.idle (SectionKind.all.map (·, [])) [] [] []) true := by
  have hsection (sections : List (SectionKind × Text)) (kind : SectionKind) :
      (Outline.idle sections [] [] []).Passes true (f.onlyReferences.renderSection kind)
        (Outline.idle (sections ++ [(kind, [])]) [] [] []) true := by
    have htext : f.onlyReferences.textOf kind = [] := by cases kind <;> rfl
    rw [renderSection, htext]
    exact Outline.passes_section kind rfl (by simp [Text.lines]) (by decide)
  simpa [SectionKind.all] using
    ((hsection [] .task).trans (hsection _ .action)).trans (hsection _ .goal)

/-- References that are read back from their written form are told apart. -/
theorem areLegible_of_render_onlyReferences (hf : ∀ r ∈ f.references, r.IsWellFormed)
    (registry : Option Registry)
    (h : (Compiled.ofText f.onlyReferences.render registry).form.references = f.references) :
    FormReference.areLegible f.references = true := by
  obtain ⟨free, p, hfree, hread⟩ := passes_onlyReferences f none .start
    (f.references.flatMap FormReference.render) rfl
  have hrender : SectionKind.all.flatMap f.onlyReferences.renderSection ++
      f.references.flatMap FormReference.render = f.onlyReferences.render := by
    simp [render, onlyReferences]
  have hform : (Compiled.ofText f.onlyReferences.render registry).form = _ :=
    lower_ofText f.onlyReferences.render
  rw [hrender] at hread
  have hempty : Outline.empty.applyAll (Item.ofTokens (Token.ofText f.onlyReferences.render)) = _ :=
    hread
  rw [hform, hempty] at h
  have hreferences : (Outline.read _ _).close.references = f.references := h
  rw [(Outline.Extends.close _).references, Lexer.references_read] at hreferences
  exact FormReference.areLegible_of_references hf hfree hreferences

/-- The references of a script, written without its texts, its blocks and its calls, are read back
exactly if they are told apart. -/
theorem compile_render_onlyReferences_iff (source : Text) :
    (Compiled.ofText (Compiled.ofText source none).form.onlyReferences.render none).form.references =
        (Compiled.ofText source none).form.references ↔
      FormReference.areLegible (Compiled.ofText source none).form.references = true := by
  have hf := isWellFormed_ofText source none
  refine ⟨areLegible_of_render_onlyReferences hf.references none, fun h => ?_⟩
  rw [form_ofText_render hf.onlyReferences (by rw [isLegible_onlyReferences, h])]
  rfl

/-- A body that is recovered from an open target and has a closing brace of its own is closed by it
where it is written. -/
theorem compile_render_onlyReferences_fails :
    ¬∀ source : Text, (Compiled.ofText
        (Compiled.ofText source none).form.onlyReferences.render none).form.references =
      (Compiled.ofText source none).form.references :=
  fun h => absurd (h "@a:\"foo \x7d\n".toList) (by decide +kernel)

end Form

end PromptScript
