import PromptScript.Proofs.RoundTrip.Form

/-!
# Canonical forms

A form is canonical if its texts are plain, the words that end the arguments of its blocks do not
stand in them, and the bodies of its references close their braces. Canonical forms are read back
from their written form, whether or not they come from a script.
-/

namespace PromptScript

namespace Text

/-- A trimmed text each of whose lines is blank or, as a script of its own, one fragment of text. -/
def IsPlainText (t : Text) : Prop :=
  trim t = t ∧ ∀ l ∈ lines t, isBlank l = false → isPlain l = true

/-- A trimmed argument on one line that does not hold the word which ends it. -/
def IsArgument (word t : Text) : Prop :=
  trim t = t ∧ t ≠ [] ∧ '\n' ∉ t ∧ word ∉ words t

/-- The lines of a plain text read as text. -/
theorem IsPlainText.readsAsText {t : Text} (h : IsPlainText t) (lineStart : Bool) :
    readsAsText lineStart (lines t) = true := by
  have hplain : ∀ l ∈ lines t, isPlain l = true := by
    intro l hl
    cases hblank : isBlank l with
    | true => exact Lexer.isPlain_of_isBlank hblank (not_mem_of_mem_lines hl)
    | false => exact h.2 l hl hblank
  cases hlines : lines t with
  | nil => rfl
  | cons l ls =>
    rw [hlines] at hplain
    have hfirst := hplain l List.mem_cons_self
    have hrest : ls.all isPlain = true :=
      List.all_eq_true.mpr fun m hm => hplain m (List.mem_cons_of_mem l hm)
    cases lineStart <;> simp [Text.readsAsText, hfirst, hrest, isInline_of_isPlain hfirst]

end Text

/-- A block whose arguments are found again where they are written and whose texts are plain. -/
def Block.IsCanonical : Block → Prop
  | conditional condition body otherwise =>
    (∃ t, '\n' ∉ t ∧ condition = .ofText t) ∧ Text.isBlank condition.render = false ∧
      "THEN".toList ∉ Text.words condition.render ∧ Text.IsPlainText body ∧
        Text.IsPlainText otherwise
  | forEach item collection body =>
    Text.IsArgument "IN".toList item ∧ Text.IsArgument "DO".toList collection ∧
      Text.IsPlainText body
  | onError body => Text.IsPlainText body

/-- A form whose texts are plain, whose arguments are found again, and whose references close their
braces. -/
structure Form.IsCanonical (f : Form) : Prop where
  /-- It is the form of a script. -/
  type_eq : f.type = scriptType
  /-- It is in the current format. -/
  version_eq : f.version = currentVersion
  /-- The texts of sections are plain. -/
  sections : ∀ kind, Text.IsPlainText (f.textOf kind)
  /-- The texts of sections have no blank line. -/
  sections_lines : ∀ kind, ∀ l ∈ Text.lines (f.textOf kind), Text.isBlank l = false
  /-- The blocks are canonical. -/
  blocks : ∀ b ∈ f.blocks, b.IsCanonical
  /-- The calls are stated by texts and take up one line. -/
  apiCalls : ∀ call ∈ f.apiCalls, (∃ t, ApiCall.ofText t = .ok call) ∧ '\n' ∉ call.render
  /-- The references are what a script can say. -/
  references : ∀ r ∈ f.references, r.IsWellFormed
  /-- The bodies of references close their braces. -/
  references_close : ∀ r ∈ f.references, closesCleanly r.body = true

/-- A canonical block can come from a script and is legible. -/
theorem Block.IsCanonical.isLegible {b : Block} (h : b.IsCanonical) :
    b.IsWellFormed ∧ b.isLegible = true := by
  cases b with
  | conditional condition body otherwise =>
    obtain ⟨hcondition, hblank, hthen, hbody, hother⟩ := h
    refine ⟨⟨hcondition, hbody.1, hother.1⟩, ?_⟩
    have hnone := Text.splitWord?_eq_none (by decide) (by decide) hthen
    rw [Block.isLegible, hblank, hnone, hbody.readsAsText, hother.readsAsText]
    rfl
  | forEach item collection body =>
    obtain ⟨⟨htrim, hne, hline, hin⟩, ⟨htrims, hnes, hlines, hdo⟩, hbody⟩ := h
    refine ⟨⟨⟨hline, htrim⟩, ⟨hlines, htrims⟩, hbody.1⟩, ?_⟩
    rw [Block.isLegible, Text.splitWord?_eq_none (by decide) (by decide) hin,
      Text.splitWord?_eq_none (by decide) (by decide) hdo, hbody.readsAsText,
      List.isEmpty_eq_false_iff.mpr hne, List.isEmpty_eq_false_iff.mpr hnes]
    rfl
  | onError body => exact ⟨h.1, h.readsAsText true⟩

/-- References that close their braces are told apart. -/
theorem FormReference.areLegible_of_closesCleanly {rs : List FormReference}
    (h : ∀ r ∈ rs, closesCleanly r.body = true) : areLegible rs = true := by
  induction rs with
  | nil => rfl
  | cons r rs ih =>
    rw [areLegible, h r List.mem_cons_self, ih fun q hq => h q (List.mem_cons_of_mem r hq)]
    rfl

namespace Form.IsCanonical

variable {f : Form}

/-- A canonical form is one that a script can say. -/
theorem isWellFormed (h : f.IsCanonical) : f.IsWellFormed where
  type_eq := h.type_eq
  version_eq := h.version_eq
  sections_trim kind := (h.sections kind).1
  sections_lines := h.sections_lines
  blocks b hb := (h.blocks b hb).isLegible.1
  apiCalls call hcall := by
    obtain ⟨⟨t, ht⟩, hline⟩ := h.apiCalls call hcall
    rw [ApiCall.render_eq, List.mem_append, not_or] at hline
    exact ⟨t, ht, hline.2⟩
  references := h.references

/-- A canonical form is legible. -/
theorem isLegible (h : f.IsCanonical) : f.isLegible = true := by
  simp only [Form.isLegible, Bool.and_eq_true, List.all_eq_true]
  exact ⟨fun kind _ => (h.sections kind).readsAsText false,
    fun b hb => (h.blocks b hb).isLegible.2,
    FormReference.areLegible_of_closesCleanly h.references_close⟩

/-- Reading undoes writing on canonical forms. -/
theorem form_compile_render (h : f.IsCanonical) : (Compiled.ofText f.render none).form = f :=
  form_ofText_render h.isWellFormed h.isLegible none

/-- A form with something of each kind. -/
def specimen : Form where
  type := scriptType
  version := currentVersion
  task := "Look".toList
  action := "Read\nWrite".toList
  goal := []
  references := [.ofParts "x".toList (some "t".toList) "q".toList]
  blocks := [.conditional (.comparison "n".toList .lt "1".toList) "Read".toList "Write".toList,
    .forEach "f".toList "fs".toList "Look".toList]
  apiCalls := [⟨.service "a".toList "b".toList, [], Params.ofBody []⟩]

/-- The specimen is canonical, so it is read back from its written form. -/
theorem form_compile_render_specimen :
    specimen.IsCanonical ∧ (Compiled.ofText specimen.render none).form = specimen := by
  have hword (c : Char) (run : Text) (hstart : c ≠ '\n' ∧ Text.isSpace c = false ∧ c ≠ '@')
      (hrun : (c :: run).all Text.isWord = true) (hkind : Piece.wordKind (c :: run) [] = .word) :
      Text.isPlain (c :: run) = true := by
    have hscan := Piece.scan_word hstart hrun (show Piece.stops Text.isWord [] = true from rfl)
    rw [hkind, List.append_nil, Piece.scan_nil] at hscan
    refine Lexer.isPlain_iff.mpr ⟨?_, ?_⟩
    · rw [hscan]
      rfl
    · rw [Text.isInline, hscan]
      rfl
  have hlook : Text.isPlain "Look".toList = true :=
    hword 'L' "ook".toList (by decide) (by decide) (by decide)
  have hread : Text.isPlain "Read".toList = true :=
    hword 'R' "ead".toList (by decide) (by decide) (by decide)
  have hwrite : Text.isPlain "Write".toList = true :=
    hword 'W' "rite".toList (by decide) (by decide) (by decide)
  have htext {t : Text} (ls : List Text) (htrim : Text.trim t = t) (hlines : Text.lines t = ls)
      (h : ∀ l ∈ ls, Text.isPlain l = true) : Text.IsPlainText t :=
    ⟨htrim, fun l hl _ => h l (hlines ▸ hl)⟩
  have hlooktext : Text.IsPlainText "Look".toList :=
    htext ["Look".toList] (by decide) (by decide) (by simpa using hlook)
  have hreadtext : Text.IsPlainText "Read".toList :=
    htext ["Read".toList] (by decide) (by decide) (by simpa using hread)
  have hwritetext : Text.IsPlainText "Write".toList :=
    htext ["Write".toList] (by decide) (by decide) (by simpa using hwrite)
  have hsections : ∀ kind, Text.IsPlainText (specimen.textOf kind) := by
    intro kind
    cases kind with
    | task => exact hlooktext
    | action =>
      exact htext ["Read".toList, "Write".toList] (by decide) (by decide)
        (by simpa using ⟨hread, hwrite⟩)
    | goal => exact htext [] rfl rfl (by simp)
  have hcanonical : specimen.IsCanonical := by
    refine ⟨rfl, rfl, hsections, ?_, ?_, ?_, ?_, ?_⟩
    · intro kind
      cases kind <;> decide
    · intro b hb
      simp only [specimen, List.mem_cons, List.not_mem_nil, or_false] at hb
      rcases hb with rfl | rfl
      · exact ⟨⟨"n<1".toList, by decide, by decide⟩, by decide, by decide, hreadtext, hwritetext⟩
      · exact ⟨⟨by decide, by decide, by decide, by decide⟩,
          ⟨by decide, by decide, by decide, by decide⟩, hlooktext⟩
    · intro call hcall
      rw [List.mem_singleton.mp hcall]
      exact ⟨⟨"a.b".toList, rfl⟩, by decide⟩
    · intro r hr
      rw [List.mem_singleton.mp hr]
      exact ⟨by decide, by decide, by decide, by decide, by decide, rfl⟩
    · intro r hr
      rw [List.mem_singleton.mp hr]
      decide
  exact ⟨hcanonical, hcanonical.form_compile_render⟩

end Form.IsCanonical

end PromptScript
