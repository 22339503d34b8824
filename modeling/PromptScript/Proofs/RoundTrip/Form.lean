import PromptScript.Engine
import PromptScript.Proofs.RoundTrip.ApiCall
import PromptScript.Proofs.RoundTrip.Block

/-!
# Forms written and read back

A form that a script can have is read back from its written form if its lines read as text, the
arguments of its blocks are found where they are written, and the braces of its references do not
reach into each other.
-/

namespace PromptScript

open Lexer (ahead IsFree)

namespace Outline

variable {sections : List (SectionKind × Text)} {references : List FormReference}
  {blocks : List Block} {apiCalls : List ApiCall}

/-- An outline with a section open at the start of a line. -/
def inSection (sections : List (SectionKind × Text)) (references : List FormReference)
    (blocks : List Block) (apiCalls : List ApiCall) (kind : SectionKind) (t : Text) : Outline :=
  ⟨sections, references, blocks, apiCalls, some ⟨kind, ⟨t, []⟩⟩, none, true, false⟩

/-- The first line of a section is added to its text, blank or not. -/
theorem text_header (kind : SectionKind) (l : Text) :
    ((idle sections references blocks apiCalls).header kind).text (l ++ ['\n']) =
      inSection sections references blocks apiCalls kind (l ++ ['\n']) := by
  have hends : Text.endsLine (l ++ ['\n']) = true := by simp [Text.endsLine]
  unfold text
  rw [if_neg (by simp [header, setLine])]
  simp [header, close, finishSection, finishBlock, idle, edit, setLine, inSection, TextBuffer.push,
    TextBuffer.text, TextBuffer.empty, hends]

/-- A line of a section that is not blank is added to its text. -/
theorem text_inSection (kind : SectionKind) (s : Text) {l : Text} (hl : Text.isBlank l = false) :
    (inSection sections references blocks apiCalls kind s).text (l ++ ['\n']) =
      inSection sections references blocks apiCalls kind (s ++ (l ++ ['\n'])) := by
  have hends : Text.endsLine (l ++ ['\n']) = true := by simp [Text.endsLine]
  have hblank : Text.isBlank (l ++ ['\n']) = false := by rw [Text.isBlank_append, hl]; rfl
  unfold text
  rw [if_neg (by simp [hblank])]
  simp [edit, setLine, inSection, TextBuffer.push, TextBuffer.text, hends]

/-- Lines of a section that are not blank are added to its text. -/
theorem texts_inSection (kind : SectionKind) (s : Text) {lines : List Text}
    (h : ∀ l ∈ lines, Text.isBlank l = false) :
    (inSection sections references blocks apiCalls kind s).texts lines =
      inSection sections references blocks apiCalls kind (s ++ Text.unlines lines) := by
  induction lines generalizing s with
  | nil => rw [Text.unlines_nil, List.append_nil, texts_nil]
  | cons l lines ih =>
    rw [texts_cons, text_inSection kind s (h l List.mem_cons_self),
      ih _ fun m hm => h m (List.mem_cons_of_mem l hm), Text.unlines_cons]
    simp

/-- A trimmed text without blank lines, written under a header, is collected whole. -/
theorem texts_header (kind : SectionKind) {t : Text} (ht : Text.trim t = t)
    (hlines : ∀ l ∈ Text.lines t, Text.isBlank l = false) :
    ((idle sections references blocks apiCalls).header kind).texts (Text.spaced t) =
      inSection sections references blocks apiCalls kind (' ' :: t ++ ['\n']) := by
  rw [← Text.unlines_spaced ht, Text.spaced]
  cases hl : Text.lines t with
  | nil => rw [texts_cons, text_header]; rfl
  | cons l ls =>
    have hrest : ∀ m ∈ ls, Text.isBlank m = false := fun m hm =>
      hlines m (by rw [hl]; exact List.mem_cons_of_mem l hm)
    rw [texts_cons, text_header, texts_inSection kind _ hrest, Text.unlines_cons]
    simp

/-- What is collected of a trimmed text under its header is the text. -/
theorem finish_spaced {t : Text} (ht : Text.trim t = t) :
    TextBuffer.finish ⟨' ' :: t ++ ['\n'], []⟩ = t := by
  have hblank := Text.trim_append_append (a := [' ']) (b := ['\n']) (by decide) (by decide) t
  rw [ht] at hblank
  rw [TextBuffer.finish, TextBuffer.text, List.append_nil]
  exact hblank

/-- A written section is a passage. -/
theorem passes_section (kind : SectionKind) {t : Text} (ht : Text.trim t = t)
    (hlines : ∀ l ∈ Text.lines t, Text.isBlank l = false)
    (h : Text.readsAsText false (Text.lines t) = true) :
    (idle sections references blocks apiCalls).Passes true
      (kind.keyword ++ ": ".toList ++ t ++ "\n\n".toList)
      (idle (sections ++ [(kind, t)]) references blocks apiCalls) true := by
  have hspaced := Text.unlines_spaced ht
  rw [← Text.readsAsText_spaced ht] at h
  have hfinish : (inSection sections references blocks apiCalls kind (' ' :: t ++ ['\n'])).text ['\n'] =
      idle (sections ++ [(kind, t)]) references blocks apiCalls := by
    have hclosed : (inSection sections references blocks apiCalls kind
        (' ' :: t ++ ['\n'])).text ['\n'] =
          idle (sections ++ [(kind, TextBuffer.finish ⟨' ' :: t ++ ['\n'], []⟩)]) references blocks
            apiCalls := rfl
    rw [hclosed, finish_spaced ht]
  have htext : ((idle sections references blocks apiCalls).header kind).Passes false
      (' ' :: t ++ ['\n'])
      (inSection sections references blocks apiCalls kind (' ' :: t ++ ['\n'])) true := by
    have hpasses := passes_unlines
      (o := (idle sections references blocks apiCalls).header kind) h
      fun l hl => Text.not_mem_of_mem_spaced hl
    rw [texts_header kind ht hlines, hspaced,
      List.isEmpty_eq_false_iff.mpr (Text.spaced_ne_nil t)] at hpasses
    exact hpasses
  have hall := ((passes_header kind).trans htext).trans (passes_break _ true)
  rw [hfinish] at hall
  simpa using hall

/-- A written call is a passage. -/
theorem passes_call {t : Text} {call : ApiCall} (h : ApiCall.ofText t = .ok call)
    (hline : '\n' ∉ call.arguments) :
    (idle sections references blocks apiCalls).Passes true (call.render ++ ['\n'])
      (idle sections references blocks (apiCalls ++ [call])) true := by
  have hread : ApiCall.ofText (Text.trim (' ' :: call.arguments)) = .ok call := by
    rw [Text.trim_cons rfl, ApiCall.ofText_trim, ApiCall.ofText_arguments h]
  have hperform : (idle sections references blocks apiCalls).perform .callApi
      (Text.trim (' ' :: call.arguments)) =
        idle sections references blocks (apiCalls ++ [call]) := by
    rw [perform, callApi, hread]
    rfl
  have hpasses := passes_two (o := idle sections references blocks apiCalls) rfl rfl rfl "CALL".toList
    "API".toList .callWord .callApi (by decide) (by decide) rfl (by decide) (by decide)
    (' ' :: call.arguments) rfl (by simp [hline])
  rw [hperform] at hpasses
  rw [ApiCall.render_eq]
  simpa using hpasses

/-- Blocks written in a row are a passage. -/
theorem passes_blocks {bs : List Block} (h : ∀ b ∈ bs, b.IsWellFormed ∧ b.isLegible = true) :
    (idle sections references blocks apiCalls).Passes true (bs.flatMap Block.render)
      (idle sections references (blocks ++ bs) apiCalls) true := by
  induction bs generalizing blocks with
  | nil =>
    rw [List.append_nil]
    exact .refl _ true
  | cons b bs ih =>
    obtain ⟨hb, hlegible⟩ := h b List.mem_cons_self
    have hjoin : blocks ++ b :: bs = blocks ++ [b] ++ bs := by simp
    rw [hjoin]
    exact (passes_block hb hlegible).trans (ih fun c hc => h c (List.mem_cons_of_mem b hc))

/-- Calls written in a row are a passage. -/
theorem passes_calls {calls : List ApiCall}
    (h : ∀ call ∈ calls, ∃ t, ApiCall.ofText t = .ok call ∧ '\n' ∉ call.arguments) :
    (idle sections references blocks apiCalls).Passes true
      (calls.flatMap fun call => call.render ++ ['\n'])
      (idle sections references blocks (apiCalls ++ calls)) true := by
  induction calls generalizing apiCalls with
  | nil =>
    rw [List.append_nil]
    exact .refl _ true
  | cons call calls ih =>
    obtain ⟨t, hcall, hline⟩ := h call List.mem_cons_self
    have hjoin : apiCalls ++ call :: calls = apiCalls ++ [call] ++ calls := by simp
    rw [hjoin]
    exact (passes_call hcall hline).trans (ih fun c hc => h c (List.mem_cons_of_mem call hc))

end Outline

/-- Whether written references are told apart: the body of each ends at its brace, or else its
lines read as text and no brace after them closes it. -/
def FormReference.areLegible : List FormReference → Bool
  | [] => true
  | r :: rs =>
    (closesCleanly r.body || (Text.readsAsText false (Text.lines r.body) &&
      (Text.cutClosing? 1 (r.body ++ '\n' :: rs.flatMap FormReference.render)).isNone)) &&
        areLegible rs

namespace Outline

variable {sections : List (SectionKind × Text)} {references : List FormReference}
  {blocks : List Block} {apiCalls : List ApiCall}

/-- Written references that are told apart are read back. -/
theorem read_references {rs : List FormReference} (h : ∀ r ∈ rs, r.IsWellFormed)
    (hlegible : FormReference.areLegible rs = true) {before : Option Char} (hb : IsFree before)
    (p : Position) :
    (idle sections references blocks apiCalls).read
        (ahead .text true before p (rs.flatMap FormReference.render)) =
      idle sections (references ++ rs) blocks apiCalls := by
  induction rs generalizing references before p with
  | nil =>
    rw [List.append_nil, List.flatMap_nil, read, Lexer.tokens_ahead_nil, Item.ofTokens, if_pos rfl]
    rfl
  | cons r rs ih =>
    have hr := h r List.mem_cons_self
    have hrs : ∀ q ∈ rs, q.IsWellFormed := fun q hq => h q (List.mem_cons_of_mem r hq)
    simp only [FormReference.areLegible, Bool.and_eq_true, Bool.or_eq_true,
      Option.isNone_iff_eq_none] at hlegible
    obtain ⟨hfirst, hrest⟩ := hlegible
    have hjoin : references ++ r :: rs = (references ++ [r]) ++ rs := by simp
    rw [List.flatMap_cons, hjoin]
    by_cases hclean : closesCleanly r.body = true
    · obtain ⟨free, q, hfree, hread⟩ := passes_reference hr hclean before p
        (rs.flatMap FormReference.render) hb
      rw [hread, ih hrs hrest hfree]
    · obtain ⟨hlines, hclose⟩ := hfirst.resolve_left hclean
      obtain ⟨free, q, hfree, hread⟩ := read_open_reference hr hrs (by simpa using hclean) hlines
        hclose hb p
      rw [hread, ih hrs hrest hfree]

end Outline

namespace Form

/-- What the form of a script is like. -/
structure IsWellFormed (f : Form) : Prop where
  /-- It is the form of a script. -/
  type_eq : f.type = scriptType
  /-- It is in the current format. -/
  version_eq : f.version = currentVersion
  /-- The texts of sections are trimmed. -/
  sections_trim : ∀ kind, Text.trim (f.textOf kind) = f.textOf kind
  /-- The texts of sections have no blank line. -/
  sections_lines : ∀ kind, ∀ l ∈ Text.lines (f.textOf kind), Text.isBlank l = false
  /-- The blocks are what a script can say. -/
  blocks : ∀ b ∈ f.blocks, b.IsWellFormed
  /-- The calls are stated by texts and take up one line. -/
  apiCalls : ∀ call ∈ f.apiCalls, ∃ t, ApiCall.ofText t = .ok call ∧ '\n' ∉ call.arguments
  /-- The references are what a script can say. -/
  references : ∀ r ∈ f.references, r.IsWellFormed

/-- Whether a form is read back from its written form: the lines of its sections read as text, and
its blocks and its references are legible. -/
def isLegible (f : Form) : Bool :=
  SectionKind.all.all (fun kind => Text.readsAsText false (Text.lines (f.textOf kind))) &&
    (f.blocks.all Block.isLegible && FormReference.areLegible f.references)

/-- A legible form is read back from its written form. -/
theorem form_ofText_render {f : Form} (h : f.IsWellFormed) (hlegible : f.isLegible = true)
    (registry : Option Registry) : (Compiled.ofText f.render registry).form = f := by
  simp only [isLegible, Bool.and_eq_true, List.all_eq_true] at hlegible
  obtain ⟨hsections, hblocks, hreferences⟩ := hlegible
  have hsection (sections : List (SectionKind × Text)) (kind : SectionKind)
      (hkind : kind ∈ SectionKind.all) :
      (Outline.idle sections [] [] []).Passes true (f.renderSection kind)
        (Outline.idle (sections ++ [(kind, f.textOf kind)]) [] [] []) true :=
    Outline.passes_section kind (h.sections_trim kind) (h.sections_lines kind) (hsections kind hkind)
  have hthree := ((hsection [] .task (by decide)).trans (hsection _ .action (by decide))).trans
    (hsection _ .goal (by decide))
  have hfour := hthree.trans
    (Outline.passes_blocks fun b hb => ⟨h.blocks b hb, hblocks b hb⟩)
  obtain ⟨free, q, hfree, hread⟩ := (hfour.trans (Outline.passes_calls h.apiCalls)) none .start
    (f.references.flatMap FormReference.render) rfl
  rw [Outline.read_references h.references hreferences hfree] at hread
  have hrender : f.renderSection .task ++ f.renderSection .action ++ f.renderSection .goal ++
      f.blocks.flatMap Block.render ++ f.apiCalls.flatMap (fun call => call.render ++ ['\n']) ++
        f.references.flatMap FormReference.render = f.render := by
    simp [render, SectionKind.all]
  rw [hrender] at hread
  have hform : (Compiled.ofText f.render registry).form = _ := lower_ofText f.render
  have hempty : Outline.empty.applyAll (Item.ofTokens (Token.ofText f.render)) = _ := hread
  rw [hform, hempty]
  obtain ⟨type, version, task, action, goal, references, blocks, apiCalls⟩ := f
  have htype : type = scriptType := h.type_eq
  have hversion : version = currentVersion := h.version_eq
  rw [htype, hversion]
  rfl

end Form

end PromptScript
