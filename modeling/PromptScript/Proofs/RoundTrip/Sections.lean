import PromptScript.Proofs.RoundTrip.Origin

/-!
# Sections without gaps

However references, comments and fragments of text fall on the lines of a section, its text is
trimmed and holds no blank line. So the text written under its header again is collected whole.
-/

namespace PromptScript

open Lexer (ahead)

namespace Text

/-- Lines with a line break after each are the lines with line breaks between them, and one more. -/
theorem unlines_eq_intercalate {ls : List Text} (hne : ls ≠ []) :
    unlines ls = List.intercalate ['\n'] ls ++ ['\n'] := by
  induction ls with
  | nil => exact absurd rfl hne
  | cons l ls ih =>
    cases ls with
    | nil => simp [List.intercalate]
    | cons m ls =>
      rw [unlines_cons, ih (List.cons_ne_nil m ls), List.intercalate_cons_cons]
      simp

/-- A text that does not end in a line break is split into its lines. -/
theorem splitOn_eq_lines {t : Text} (hne : t ≠ []) (hend : t.getLast? ≠ some '\n') :
    t.splitOn '\n' = lines t := by
  have hlines : lines t ≠ [] := mt lines_eq_nil_iff.mp hne
  have hjoin := unlines_lines hne hend
  rw [unlines_eq_intercalate hlines, List.append_left_inj] at hjoin
  have hsplit := List.splitOn_intercalate '\n' (fun l hl => not_mem_of_mem_lines hl) hlines
  rwa [hjoin] at hsplit

end Text

/-- The kinds and the texts of the sections of a document, in order. -/
def Document.sectionTexts (d : Document) : List (SectionKind × Text) :=
  d.sections.map fun s => (s.kind, s.body)

/-- The sections of a script are those that its items lead to. -/
theorem sectionTexts_ofText (source : Text) :
    (Parsed.ofText source).document.sectionTexts =
      (Outline.empty.read (.ofText source)).close.sections :=
  congrArg Outline.sections (outline_ofText source)

namespace Outline

/-- A header begins its section afresh, whatever was open. -/
theorem header_eq (o : Outline) (kind : SectionKind) :
    o.header kind =
      (idle o.close.sections o.close.references o.close.blocks o.close.apiCalls).header kind := by
  have hblock : o.close.openBlock = none := IsSound.openBlock_close o
  unfold header
  generalize o.close = closed at hblock
  obtain ⟨_, _, _, _, _, openBlock, _, _⟩ := closed
  obtain rfl : openBlock = none := hblock
  rfl

/-- The text of a section, written under its header by itself, is the section of the script. -/
theorem sectionTexts_written (kind : SectionKind) {t : Text} (ht : Text.trim t = t)
    (hlines : ∀ l ∈ Text.lines t, Text.isBlank l = false)
    (h : Text.readsAsText false (Text.lines t) = true) :
    (Parsed.ofText (kind.keyword ++ ": ".toList ++ t ++ "\n\n".toList)).document.sectionTexts =
      [(kind, t)] := by
  have hpasses : (idle [] [] [] []).Passes true _ (idle ([] ++ [(kind, t)]) [] [] []) true :=
    passes_section kind ht hlines h
  obtain ⟨free, q, -, hread⟩ := hpasses none .start [] rfl
  have hend : (idle ([] ++ [(kind, t)]) [] [] []).read (ahead .text true free q []) =
      idle [(kind, t)] [] [] [] := by
    rw [read, Lexer.tokens_ahead_nil, Item.ofTokens, if_pos rfl]
    rfl
  rw [List.append_nil, hend] at hread
  rw [sectionTexts_ofText]
  exact congrArg (fun o => o.close.sections) hread

/-- The text of a section, applied line by line after its header, is collected whole and its
section is still open. -/
theorem openSection_written (o : Outline) (kind : SectionKind) {t : Text} (ht : Text.trim t = t)
    (hlines : ∀ l ∈ Text.lines t, Text.isBlank l = false) :
    ((o.header kind).texts (Text.spaced t)).openSection = some ⟨kind, ⟨' ' :: t ++ ['\n'], []⟩⟩ := by
  rw [header_eq, texts_header kind ht hlines]
  rfl

/-- Tokens of text are applied by their texts. -/
theorem applyAll_text (o : Outline) {ts : List Token} {ls : List Text}
    (h : ts.map (·.text) = ls.map (· ++ ['\n'])) : o.applyAll (ts.map .text) = o.texts ls := by
  induction ls generalizing o ts with
  | nil =>
    rw [List.map_nil, List.map_eq_nil_iff] at h
    rw [h, List.map_nil, applyAll_nil, texts_nil]
  | cons l ls ih =>
    obtain ⟨t, us, rfl, ht, hus⟩ := List.map_eq_cons_iff.mp h
    rw [List.map_cons, applyAll_cons, texts_cons, apply, ht]
    exact ih _ hus

end Outline

/-- Every section of a script is trimmed and has no blank line. -/
theorem section_isInked {source : Text} {s : Section}
    (hs : s ∈ (Parsed.ofText source).document.sections) :
    Text.trim s.body = s.body ∧ ∀ l ∈ Text.lines s.body, Text.isBlank l = false := by
  have hsound : (Outline.empty.read (.ofText source)).close.IsSound :=
    (Outline.IsSound.empty.applyAll (Item.allHold_ofTokens (Token.holds_ofText source))).close
  have hmem : (s.kind, s.body) ∈ (Parsed.ofText source).document.sectionTexts :=
    List.mem_map_of_mem hs
  rw [sectionTexts_ofText] at hmem
  exact hsound.sections _ hmem

/-- The text of every section is trimmed, and no line of it is blank unless the whole text is
empty. After a header its lines are collected whole, and the section is not ended by any of them.
If they read as text, the script that holds the section alone gives it back. -/
theorem sections_gapless (source : Text) (s : Section)
    (hs : s ∈ (Parsed.ofText source).document.sections) :
    Text.trim s.body = s.body ∧
      (∀ l ∈ s.body.splitOn '\n', Text.isBlank l = true → s.body = []) ∧
      (∀ (d : Draft) (header : Token) (ts : List Token),
        ts.map (·.text) = (Text.spaced s.body).map (· ++ ['\n']) →
          ∃ found, (d.applyAll (.header header s.kind :: ts.map .text)).openSection = some found ∧
            found.kind = s.kind ∧ found.body.finish = s.body) ∧
      (Text.readsAsText false (Text.lines s.body) = true →
        (Parsed.ofText
            (s.kind.keyword ++ ": ".toList ++ s.body ++ "\n\n".toList)).document.sectionTexts =
          [(s.kind, s.body)]) := by
  obtain ⟨htrim, hlines⟩ := section_isInked hs
  refine ⟨htrim, fun l hl hblank => ?_, fun d header ts hts => ?_,
    Outline.sectionTexts_written s.kind htrim hlines⟩
  · refine Classical.byContradiction fun hne => ?_
    rw [Text.splitOn_eq_lines hne (Text.getLast?_ne_of_trim htrim)] at hl
    rw [hlines l hl] at hblank
    cases hblank
  · have hknown : ∀ item ∈ Item.header header s.kind :: ts.map .text, item.IsKnown := by
      simp [Item.IsKnown]
    have houtline := congrArg Outline.openSection (d.outline_applyAll hknown)
    rw [Outline.applyAll_cons, Outline.applyAll_text _ hts] at houtline
    have hopen := houtline.trans (Outline.openSection_written d.outline s.kind htrim hlines)
    obtain ⟨found, hfound, hsame⟩ := Option.map_eq_some_iff.mp hopen
    obtain ⟨hkind, hbody⟩ := SectionOutline.mk.inj hsame
    exact ⟨found, hfound, hkind, by rw [hbody, Outline.finish_spaced htrim]⟩

/-- References over two lines, in a row and without an end leave no gap in a task. -/
theorem sections_gapless_task :
    ⟨.task, "Fix  it.\nThen".toList, ⟨⟨1, 1⟩, ⟨4, 6⟩⟩⟩ ∈ (Parsed.ofText
        "TASK: Fix @a\x7bb\nc\x7d it.\n @d @e\nThen @f\x7b stop\n\nlast".toList).document.sections ∧
      ∀ l ∈ "Fix  it.\nThen".toList.splitOn '\n', Text.isBlank l = true →
        "Fix  it.\nThen".toList = [] :=
  have hmem : ⟨.task, "Fix  it.\nThen".toList, ⟨⟨1, 1⟩, ⟨4, 6⟩⟩⟩ ∈ (Parsed.ofText
      "TASK: Fix @a\x7bb\nc\x7d it.\n @d @e\nThen @f\x7b stop\n\nlast".toList).document.sections := by
    decide +kernel
  ⟨hmem, (sections_gapless _ _ hmem).2.1⟩

end PromptScript
