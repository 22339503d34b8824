import PromptScript.Proofs.RoundTrip.Condition
import PromptScript.Proofs.RoundTrip.Reference

/-!
# Blocks written and read back

A written block is the line that opens it, the lines of its text, for some conditions an
alternative with its lines, and the line that ends it. It is read back if its arguments are found
where they were written and its lines read as text.
-/

namespace PromptScript

open Piece (scan)

namespace Block

/-- What a script can say of a block: conditions and arguments that come from a line, and trimmed
texts. -/
def IsWellFormed : Block → Prop
  | conditional condition body otherwise =>
    (∃ t, '\n' ∉ t ∧ condition = .ofText t) ∧ Text.trim body = body ∧
      Text.trim otherwise = otherwise
  | forEach item collection body =>
    ('\n' ∉ item ∧ Text.trim item = item) ∧ ('\n' ∉ collection ∧ Text.trim collection = collection) ∧
      Text.trim body = body
  | onError body => Text.trim body = body

/-- Whether the arguments of a block are found again where they are written, and the lines of its
texts read as text. -/
def isLegible : Block → Bool
  | conditional condition body otherwise =>
    (!Text.isBlank condition.render && (Text.splitWord? "THEN".toList condition.render).isNone) &&
      (Text.readsAsText true (Text.lines body) && Text.readsAsText true (Text.lines otherwise))
  | forEach item collection body =>
    ((!item.isEmpty && (Text.splitWord? "IN".toList item).isNone) &&
        (!collection.isEmpty && (Text.splitWord? "DO".toList collection).isNone)) &&
      Text.readsAsText true (Text.lines body)
  | onError body => Text.readsAsText true (Text.lines body)

/-- A branch is its heading and its lines. -/
theorem branch_eq {body : Text} (h : Text.trim body = body) (heading : Text) :
    branch heading body = heading ++ ['\n'] ++ Text.unlines (Text.lines body) := by
  rw [branch]
  by_cases hne : body = []
  · subst hne
    simp [Text.lines]
  · rw [Text.unlines_lines hne (Text.getLast?_ne_of_trim h)]
    simp [hne]

end Block

namespace BlockOutline

/-- The block with another text in place of the one that is being collected. -/
def refill (b : BlockOutline) (t : Text) : BlockOutline :=
  b.edit fun _ => ⟨t, []⟩

/-- Text that ends a line is added to the text of a refilled block. -/
theorem edit_refill (b : BlockOutline) (s : Text) {t : Text} (ht : Text.endsLine t = true) :
    (b.refill s).edit (·.push t) = b.refill (s ++ t) := by
  obtain ⟨opening, body, otherwise⟩ := b
  cases otherwise <;> simp [refill, edit, TextBuffer.push, TextBuffer.text, ht]

end BlockOutline

namespace Outline

variable {sections : List (SectionKind × Text)} {references : List FormReference}
  {blocks : List Block} {apiCalls : List ApiCall}

/-- An outline with a block open at the start of a line. -/
def inBlock (sections : List (SectionKind × Text)) (references : List FormReference)
    (blocks : List Block) (apiCalls : List ApiCall) (block : BlockOutline) : Outline :=
  ⟨sections, references, blocks, apiCalls, none, some block, true, false⟩

/-- A line of text in a block is added to its text, blank or not. -/
theorem text_inBlock (b : BlockOutline) (s l : Text) :
    (inBlock sections references blocks apiCalls (b.refill s)).text (l ++ ['\n']) =
      inBlock sections references blocks apiCalls (b.refill (s ++ (l ++ ['\n']))) := by
  have hends : Text.endsLine (l ++ ['\n']) = true := by simp [Text.endsLine]
  unfold text
  split
  · rw [← BlockOutline.edit_refill b s hends]
    rfl
  · simp only [inBlock, edit, setLine, BlockOutline.edit_refill b s hends, hends, Bool.true_or,
      Bool.not_true, Bool.and_false]

/-- Lines of text in a block are added to its text. -/
theorem texts_inBlock (b : BlockOutline) (s : Text) (lines : List Text) :
    (inBlock sections references blocks apiCalls (b.refill s)).texts lines =
      inBlock sections references blocks apiCalls (b.refill (s ++ Text.unlines lines)) := by
  induction lines generalizing s with
  | nil => rw [Text.unlines_nil, List.append_nil, texts_nil]
  | cons l lines ih =>
    rw [texts_cons, text_inBlock, ih, Text.unlines_cons]
    simp

/-- The heading of a branch and the lines of its text are a passage. -/
theorem passes_branch {o : Outline} {b : BlockOutline} {heading body : Text}
    (hopen : o.Passes true (heading ++ ['\n'])
      (inBlock sections references blocks apiCalls (b.refill [])) true)
    (hbody : Text.trim body = body) (h : Text.readsAsText true (Text.lines body) = true) :
    o.Passes true (Block.branch heading body)
      (inBlock sections references blocks apiCalls (b.refill (Text.unlines (Text.lines body))))
      true := by
  have hlines := passes_unlines
    (o := inBlock sections references blocks apiCalls (b.refill [])) h
    fun l hl => Text.not_mem_of_mem_lines hl
  rw [texts_inBlock, List.nil_append] at hlines
  rw [Block.branch_eq hbody]
  exact hopen.trans hlines

/-- Collecting the lines of a trimmed text gives the text. -/
theorem finish_unlines {body : Text} (h : Text.trim body = body) :
    TextBuffer.finish ⟨Text.unlines (Text.lines body), []⟩ = body := by
  rw [TextBuffer.finish, TextBuffer.text, List.append_nil]
  by_cases hne : body = []
  · subst hne
    rfl
  · rw [Text.unlines_lines hne (Text.getLast?_ne_of_trim h), Text.trim_append (by decide), h]

/-- A statement where no section is open does what its keyword says. -/
theorem statement_eq {o : Outline} (hsection : o.openSection = none) (hblank : o.lineBlank = true)
    (hreference : o.lineHasReference = false) {keyword : Text} {word : Draft.StatementWord}
    (hword : Draft.statementWords.lookup (Text.words keyword) = some word) (line : Text) :
    o.statement keyword (some line) = o.perform word (Text.trim line) := by
  have hready : o.finishSection.setLine true false = o := by
    rw [finishSection, hsection, setLine]
    obtain ⟨⟩ := o
    simp_all
  simp only [statement, hready, hword, Option.map_some, Option.getD_some]

/-- A keyword of one word and the rest of its line are a passage. -/
theorem passes_one {o : Outline} (hsection : o.openSection = none) (hblank : o.lineBlank = true)
    (hreference : o.lineHasReference = false) (keyword : Text) (k : Piece.Kind)
    (word : Draft.StatementWord) (hkeyword : (keyword, k) ∈ Piece.writtenKeywords)
    (hk : k = .ifWord ∨ k = .elseWord ∨ k = .endWord)
    (hword : Draft.statementWords.lookup (Text.words keyword) = some word) (line : Text)
    (hstart : line.head?.all (· == ' ') = true) (hline : '\n' ∉ line) :
    o.Passes true (keyword ++ line ++ ['\n']) (o.perform word (Text.trim line)) true := by
  have hstatement : ∀ rest, Lexer.statement? (scan (keyword ++ (line ++ '\n' :: rest))) =
      some (keyword, scan (line ++ '\n' :: rest)) := by
    intro rest
    cases line with
    | nil => exact Lexer.statement?_one keyword k hkeyword hk (by decide) rest
    | cons c line =>
      have hc : c = ' ' := by simpa using hstart
      exact Lexer.statement?_one keyword k hkeyword hk (by rw [hc]; decide) _
  have hpasses := passes_statement (o := o) hline hstatement
  rwa [statement_eq hsection hblank hreference hword, Text.trim_append (by decide)] at hpasses

/-- A keyword of two words and the rest of its line are a passage. -/
theorem passes_two {o : Outline} (hsection : o.openSection = none) (hblank : o.lineBlank = true)
    (hreference : o.lineHasReference = false) (first second : Text) (k : Piece.Kind)
    {other : Piece.Kind} (word : Draft.StatementWord) (hfirst : (first, k) ∈ Piece.writtenKeywords)
    (hk : ¬(k = .ifWord ∨ k = .elseWord ∨ k = .endWord)) (hother : Lexer.secondWord? k = some other)
    (hsecond : (second, other) ∈ Piece.writtenKeywords)
    (hword : Draft.statementWords.lookup (Text.words (first ++ ' ' :: second)) = some word)
    (line : Text) (hstart : line.head?.all (· == ' ') = true) (hline : '\n' ∉ line) :
    o.Passes true (first ++ ' ' :: second ++ line ++ ['\n']) (o.perform word (Text.trim line)) true := by
  have hstatement : ∀ rest, Lexer.statement? (scan (first ++ ' ' :: second ++ (line ++ '\n' :: rest))) =
      some (first ++ ' ' :: second, scan (line ++ '\n' :: rest)) := by
    intro rest
    cases line with
    | nil => exact Lexer.statement?_two first second k hfirst hk hother hsecond (by decide) rest
    | cons c line =>
      have hc : c = ' ' := by simpa using hstart
      exact Lexer.statement?_two first second k hfirst hk hother hsecond (by rw [hc]; decide) _
  have hpasses := passes_statement (o := o) hline hstatement
  rwa [statement_eq hsection hblank hreference hword, Text.trim_append (by decide)] at hpasses

/-- A written condition opens its block. -/
theorem passes_if {t : Text} (ht : '\n' ∉ t) {condition : Condition}
    (hcondition : condition = .ofText t) (hblank : Text.isBlank condition.render = false)
    (hthen : Text.splitWord? "THEN".toList condition.render = none) :
    (idle sections references blocks apiCalls).Passes true
      ("IF ".toList ++ condition.render ++ " THEN".toList ++ ['\n'])
      (inBlock sections references blocks apiCalls ⟨.conditional condition, .empty, none⟩) true := by
  have hline : '\n' ∉ ' ' :: (condition.render ++ " THEN".toList) := by
    have hrender := Condition.not_mem_render ht
    rw [← hcondition] at hrender
    simp [hrender]
  have hsplit : Text.splitWord? "THEN".toList (Text.trim (' ' :: (condition.render ++ " THEN".toList))) =
      some (Text.trim condition.render, []) := by
    have hfound := Text.splitWord?_append_blank (t := []) (by decide) (by decide) hthen rfl
    rw [Text.splitWord?_trim_blank (by decide) (by decide)]
    exact hfound
  have hsame : Condition.ofText (Text.trim condition.render) = condition := by
    rw [Condition.ofText_trim, hcondition, Condition.ofText_render]
  have hperform : (idle sections references blocks apiCalls).perform .conditional
      (Text.trim (' ' :: (condition.render ++ " THEN".toList))) =
        inBlock sections references blocks apiCalls ⟨.conditional condition, .empty, none⟩ := by
    rw [perform, conditional, hsplit]
    cases hrender : Text.trim condition.render with
    | nil =>
      rw [Text.trim_eq_nil_iff.mp hrender] at hblank
      cases hblank
    | cons c rest =>
      rw [hrender] at hsame
      simp only [hsame]
      rfl
  have hpasses := passes_one (o := idle sections references blocks apiCalls) rfl rfl rfl "IF".toList
    .ifWord .conditional (by decide) (by decide) (by decide) _ rfl hline
  rw [hperform] at hpasses
  exact hpasses

/-- A written repetition opens its block. -/
theorem passes_forEach {item collection : Text} (hitem : '\n' ∉ item) (hitems : '\n' ∉ collection)
    (htrim : Text.trim item = item) (htrims : Text.trim collection = collection)
    (hne : item ≠ []) (hnes : collection ≠ [])
    (hin : Text.splitWord? "IN".toList item = none)
    (hdo : Text.splitWord? "DO".toList collection = none) :
    (idle sections references blocks apiCalls).Passes true
      ("FOR EACH ".toList ++ item ++ " IN ".toList ++ collection ++ " DO".toList ++ ['\n'])
      (inBlock sections references blocks apiCalls ⟨.forEach item collection, .empty, none⟩) true := by
  have hline : '\n' ∉ ' ' :: (item ++ " IN ".toList ++ collection ++ " DO".toList) := by
    simp [hitem, hitems]
  have hfound : Text.splitWord? "IN".toList
      (Text.trim (' ' :: (item ++ " IN ".toList ++ collection ++ " DO".toList))) =
        some (item, Text.trim (collection ++ " DO".toList)) := by
    have hsplit := Text.splitWord?_append_blank (t := ' ' :: (collection ++ " DO".toList))
      (by decide) (by decide) hin rfl
    have hjoin : item ++ " IN ".toList ++ collection ++ " DO".toList =
        item ++ ' ' :: ("IN".toList ++ ' ' :: (collection ++ " DO".toList)) := by simp
    rw [Text.splitWord?_trim_blank (by decide) (by decide), hjoin, hsplit, htrim,
      Text.trim_cons rfl]
  have hlast : Text.splitWord? "DO".toList (Text.trim (collection ++ " DO".toList)) =
      some (collection, []) := by
    have hsplit := Text.splitWord?_append_blank (t := []) (by decide) (by decide) hdo rfl
    rw [htrims] at hsplit
    rw [Text.splitWord?_trim (by decide) (by decide)]
    exact hsplit
  have hperform : (idle sections references blocks apiCalls).perform .forEach
      (Text.trim (' ' :: (item ++ " IN ".toList ++ collection ++ " DO".toList))) =
        inBlock sections references blocks apiCalls ⟨.forEach item collection, .empty, none⟩ := by
    have hrepetition : Draft.repetition?
        (Text.trim (' ' :: (item ++ " IN ".toList ++ collection ++ " DO".toList))) =
          some (item, collection, []) := by
      rw [Draft.repetition?, hfound]
      simp only [Option.bind_eq_bind, Option.bind_some, hlast]
      simp [hne, hnes]
    rw [perform, forEach, hrepetition]
    rfl
  have hpasses := passes_two (o := idle sections references blocks apiCalls) rfl rfl rfl "FOR".toList
    "EACH".toList .forWord .forEach (by decide) (by decide) rfl (by decide) (by decide) _ rfl hline
  rw [hperform] at hpasses
  simpa using hpasses

/-- The line that begins what to do when something fails opens its block. -/
theorem passes_onError :
    (idle sections references blocks apiCalls).Passes true ("ON ERROR".toList ++ ['\n'])
      (inBlock sections references blocks apiCalls ⟨.onError, .empty, none⟩) true :=
  passes_two rfl rfl rfl "ON".toList "ERROR".toList .onWord .onError (by decide) (by decide) rfl
    (by decide) (by decide) [] rfl (by simp)

/-- The line that begins the alternative of a condition is a passage. -/
theorem passes_else (condition : Condition) (body : TextBuffer) :
    (inBlock sections references blocks apiCalls ⟨.conditional condition, body, none⟩).Passes true
      ("ELSE".toList ++ ['\n'])
      (inBlock sections references blocks apiCalls
        ⟨.conditional condition, body, some .empty⟩) true :=
  passes_one rfl rfl rfl "ELSE".toList .elseWord .otherwise (by decide) (by decide) (by decide) []
    rfl (by simp)

/-- The line that ends a block, and the blank line after it, are a passage. -/
theorem passes_end (b : BlockOutline) :
    (inBlock sections references blocks apiCalls b).Passes true "END\n\n".toList
      (idle sections references (blocks ++ [b.block]) apiCalls) true := by
  have hend : (inBlock sections references blocks apiCalls b).Passes true ("END".toList ++ ['\n'])
      (idle sections references (blocks ++ [b.block]) apiCalls) true :=
    passes_one rfl rfl rfl "END".toList .endWord .finish (by decide) (by decide) (by decide) [] rfl
      (by simp)
  exact hend.trans (passes_break _ true)

/-- A written block is a passage. -/
theorem passes_block {b : Block} (h : b.IsWellFormed) (hlegible : b.isLegible = true) :
    (idle sections references blocks apiCalls).Passes true b.render
      (idle sections references (blocks ++ [b]) apiCalls) true := by
  cases b with
  | conditional condition body otherwise =>
    obtain ⟨⟨t, ht, hcondition⟩, hbody, hotherwise⟩ := h
    simp only [Block.isLegible, Bool.and_eq_true, Bool.not_eq_true', Option.isNone_iff_eq_none]
      at hlegible
    obtain ⟨⟨hblank, hthen⟩, hlines, hothers⟩ := hlegible
    have hopened : (idle sections references blocks apiCalls).Passes true _ _ true :=
      passes_branch (b := ⟨.conditional condition, .empty, none⟩)
        (passes_if ht hcondition hblank hthen) hbody hlines
    by_cases hne : otherwise = []
    · have hended := hopened.trans (passes_end _)
      have hblock : (BlockOutline.refill ⟨.conditional condition, .empty, none⟩
          (Text.unlines (Text.lines body))).block = .conditional condition body [] := by
        rw [← congrArg (Block.conditional condition · []) (finish_unlines hbody)]
        rfl
      rw [hblock] at hended
      rw [hne]
      simpa [Block.render] using hended
    · have hother : (inBlock sections references blocks apiCalls _).Passes true _ _ true :=
        passes_branch
          (b := ⟨.conditional condition, ⟨Text.unlines (Text.lines body), []⟩, some .empty⟩)
          (passes_else condition _) hotherwise hothers
      have hended := (hopened.trans hother).trans (passes_end _)
      have hblock : (BlockOutline.refill
          ⟨.conditional condition, ⟨Text.unlines (Text.lines body), []⟩, some .empty⟩
            (Text.unlines (Text.lines otherwise))).block =
              .conditional condition body otherwise := by
        conv => rhs; rw [← finish_unlines hbody, ← finish_unlines hotherwise]
        rfl
      rw [hblock] at hended
      simpa [Block.render, hne] using hended
  | forEach item collection body =>
    simp only [Block.isLegible, Bool.and_eq_true, Bool.not_eq_true', Option.isNone_iff_eq_none,
      List.isEmpty_eq_false_iff] at hlegible
    obtain ⟨⟨⟨hne, hin⟩, hnes, hdo⟩, hlines⟩ := hlegible
    obtain ⟨⟨hitem, htrim⟩, ⟨hitems, htrims⟩, hbody⟩ := h
    have hopened : (idle sections references blocks apiCalls).Passes true _ _ true :=
      passes_branch (b := ⟨.forEach item collection, .empty, none⟩)
        (passes_forEach hitem hitems htrim htrims hne hnes hin hdo) hbody hlines
    have hended := hopened.trans (passes_end _)
    have hblock : (BlockOutline.refill ⟨.forEach item collection, .empty, none⟩
        (Text.unlines (Text.lines body))).block = .forEach item collection body :=
      congrArg _ (finish_unlines hbody)
    rw [hblock] at hended
    exact hended
  | onError body =>
    have hopened : (idle sections references blocks apiCalls).Passes true _ _ true :=
      passes_branch (b := ⟨.onError, .empty, none⟩) passes_onError h hlegible
    have hended := hopened.trans (passes_end _)
    have hblock : (BlockOutline.refill ⟨.onError, .empty, none⟩
        (Text.unlines (Text.lines body))).block = .onError body :=
      congrArg _ (finish_unlines h)
    rw [hblock] at hended
    exact hended

end Outline

end PromptScript
