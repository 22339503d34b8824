import PromptScript.Proofs.Parsing.InPlace
import PromptScript.Proofs.Parsing.Spans
import PromptScript.Proofs.Splicing.Collect

/-!
# What the parser collects, in place

Whatever tokens the parser is given, and however their texts break lines, a section and a block are
never open at once, and every text that it collects has its current line begin at the start of the
text or directly after a line break. So dropping a line always cuts the text between two characters,
and takes away only what was collected after that line break. What is finished is trimmed.
-/

namespace PromptScript

/-- Whether the text before the current line is lines that were ended, and the current line is not
ended yet. -/
structure TextBuffer.IsLined (b : TextBuffer) : Prop where
  /-- What comes before the current line ends in a line break, if there is anything. -/
  settled : b.settled = [] ∨ Text.endsLine b.settled = true
  /-- The current line does not end in one. -/
  pending : Text.endsLine b.pending = false

namespace TextBuffer.IsLined

variable {b : TextBuffer}

/-- An empty text has no line that was ended. -/
theorem empty : TextBuffer.empty.IsLined :=
  ⟨.inl rfl, rfl⟩

/-- Dropping the current line leaves lines that were ended. -/
theorem dropLine (h : b.IsLined) : b.dropLine.IsLined :=
  ⟨h.settled, rfl⟩

/-- A fragment that ends its line settles it; any other fragment leaves it open. -/
theorem push (h : b.IsLined) (t : Text) : (b.push t).IsLined := by
  by_cases ht : t = []
  · subst ht
    rwa [TextBuffer.push_nil]
  · rw [TextBuffer.push]
    cases hends : Text.endsLine t with
    | true => exact ⟨.inr ((Text.endsLine_append ht).trans hends), rfl⟩
    | false => exact ⟨h.settled, (Text.endsLine_append ht).trans hends⟩

/-- A line by itself is the current one or was ended. -/
theorem ofLine (t : Text) : (TextBuffer.ofLine t).IsLined := by
  rw [TextBuffer.ofLine]
  split
  · exact empty
  · exact (empty.push t).push ['\n']

end TextBuffer.IsLined

namespace OpenBlock

/-- The texts of a block. -/
def buffers (b : OpenBlock) : List TextBuffer :=
  b.body :: b.otherwise.toList

variable {b : OpenBlock}

/-- A change that keeps texts lined keeps those of a block lined. -/
theorem isLined_edit {change : TextBuffer → TextBuffer} (h : ∀ x ∈ b.buffers, x.IsLined)
    (hchange : ∀ x : TextBuffer, x.IsLined → (change x).IsLined) :
    ∀ x ∈ (b.edit change).buffers, x.IsLined := by
  obtain ⟨opening, body, otherwise, span⟩ := b
  obtain ⟨hbody, hother⟩ := List.forall_mem_cons.mp h
  cases otherwise with
  | none => exact List.forall_mem_cons.mpr ⟨hchange body hbody, hother⟩
  | some other =>
    exact List.forall_mem_cons.mpr
      ⟨hbody, List.forall_mem_singleton.mpr (hchange other (hother other (by simp)))⟩

/-- The branches of a finished block are trimmed. -/
theorem trim_branches (b : OpenBlock) : ∀ t ∈ b.block.branches, Text.trim t = t := by
  obtain ⟨opening, body, otherwise, span⟩ := b
  have hbody : Text.trim body.finish = body.finish := Text.trim_trim body.text
  cases opening with
  | conditional condition =>
    refine List.forall_mem_cons.mpr ⟨hbody, List.forall_mem_singleton.mpr ?_⟩
    cases otherwise with
    | none => rfl
    | some other => exact Text.trim_trim other.text
  | forEach item collection => exact List.forall_mem_singleton.mpr hbody
  | onError => exact List.forall_mem_singleton.mpr hbody

end OpenBlock

/-- The texts of the sections of a document and of the branches of its blocks. -/
def Document.texts (d : Document) : List Text :=
  d.sections.map (·.body) ++ d.blocks.flatMap (·.block.branches)

namespace Draft

/-- Every text that is being collected. -/
def buffers (d : Draft) : List TextBuffer :=
  d.openSection.toList.map (·.body) ++ d.openBlock.toList.flatMap (·.buffers)

/-- What every draft keeps to, whatever the items are. -/
structure IsTidy (d : Draft) : Prop where
  /-- A section and a block are not open at once. -/
  alone : d.openSection = none ∨ d.openBlock = none
  /-- The texts being collected are lined. -/
  buffers : ∀ b ∈ d.buffers, b.IsLined
  /-- What is finished is trimmed. -/
  texts : ∀ t ∈ d.document.texts, Text.trim t = t

namespace IsTidy

variable {d e : Draft}

/-- An empty draft is tidy. -/
theorem empty : Draft.empty.IsTidy :=
  ⟨.inl rfl, by simp [Draft.buffers, Draft.empty], by simp [Document.texts, Draft.empty,
    Document.empty]⟩

/-- Reports, references, calls and what is known of the line do not matter. -/
theorem of_eq (h : d.IsTidy) (hsection : e.openSection = d.openSection)
    (hblock : e.openBlock = d.openBlock) (htexts : e.document.texts = d.document.texts) :
    e.IsTidy := by
  have hbuffers : e.buffers = d.buffers := by
    rw [Draft.buffers, Draft.buffers, hsection, hblock]
  exact ⟨by rw [hsection, hblock]; exact h.alone, by rw [hbuffers]; exact h.buffers,
    by rw [htexts]; exact h.texts⟩

/-- A report keeps a draft tidy. -/
theorem report (h : d.IsTidy) (problem : Document.Problem) (span : Span) :
    (d.report problem span).IsTidy :=
  h.of_eq rfl rfl rfl

/-- What is known of the line does not touch what is collected. -/
theorem setLine (h : d.IsTidy) (blank hasReference : Bool) :
    (d.setLine blank hasReference).IsTidy :=
  h.of_eq rfl rfl rfl

/-- A change that keeps texts lined keeps a draft tidy. -/
theorem edit (h : d.IsTidy) {change : TextBuffer → TextBuffer}
    (hchange : ∀ b : TextBuffer, b.IsLined → (change b).IsLined) : (d.edit change).IsTidy := by
  obtain ⟨hsections, hblocks⟩ := List.forall_mem_append.mp h.buffers
  unfold Draft.edit
  split
  · rename_i b _ hblock
    simp only [hblock, Option.toList_some, List.flatMap_singleton] at hblocks
    refine ⟨.inl (h.alone.resolve_right (by simp [hblock])), ?_, h.texts⟩
    simp only [Draft.buffers, Option.toList_some, List.flatMap_singleton]
    exact List.forall_mem_append.mpr ⟨hsections, OpenBlock.isLined_edit hblocks hchange⟩
  · rename_i s hblock hsection
    simp only [hsection, Option.toList_some, List.map_singleton, List.forall_mem_singleton]
      at hsections
    refine ⟨.inr hblock, ?_, h.texts⟩
    simp [Draft.buffers, hblock, hchange s.body hsections]
  · exact h

/-- A finished section is trimmed. -/
theorem finishSection (h : d.IsTidy) : d.finishSection.IsTidy := by
  obtain ⟨hsections, hblocks⟩ := List.forall_mem_append.mp h.buffers
  obtain ⟨hbodies, hbranches⟩ := List.forall_mem_append.mp h.texts
  unfold Draft.finishSection
  split
  · rename_i s hsection
    refine ⟨.inl rfl, hblocks, ?_⟩
    simp only [Document.texts, List.map_append, List.map_singleton, List.forall_mem_append]
    exact ⟨⟨hbodies, List.forall_mem_singleton.mpr (Text.trim_trim s.body.text)⟩, hbranches⟩
  · exact h

/-- The branches of a finished block are trimmed. -/
theorem addBlock (h : d.IsTidy) (b : OpenBlock) (span : Span) :
    (d.addBlock b.block span).IsTidy := by
  obtain ⟨hsections, -⟩ := List.forall_mem_append.mp h.buffers
  obtain ⟨hbodies, hbranches⟩ := List.forall_mem_append.mp h.texts
  refine ⟨.inr rfl, ?_, ?_⟩
  · simp only [Draft.buffers, Draft.addBlock, Option.toList_none, List.flatMap_nil,
      List.append_nil]
    exact hsections
  · simp only [Document.texts, Draft.addBlock, List.flatMap_append, List.flatMap_singleton,
      List.forall_mem_append]
    exact ⟨hbodies, hbranches, b.trim_branches⟩

/-- Closing an unfinished block trims its texts. -/
theorem closeUnfinished (h : d.IsTidy) : d.closeUnfinished.IsTidy := by
  unfold Draft.closeUnfinished
  split
  · rename_i b hblock
    exact (h.report .unclosedBlock b.span).addBlock b b.span
  · exact h

/-- The end of a script keeps a draft tidy. -/
theorem close (h : d.IsTidy) : d.close.IsTidy :=
  h.finishSection.closeUnfinished

/-- Closing all that is open keeps a draft tidy. -/
theorem closeAll (h : d.IsTidy) : d.closeAll.IsTidy :=
  h.close.setLine false false

/-- A header opens a section where nothing is open. -/
theorem header (h : d.IsTidy) (t : Token) (kind : SectionKind) :
    (d.apply (.header t kind)).IsTidy := by
  have hblock : (d.apply (.header t kind)).openBlock = none :=
    openBlock_closeUnfinished d.finishSection
  refine ⟨.inr hblock, ?_, h.closeAll.texts⟩
  rw [Draft.buffers, hblock]
  exact List.forall_mem_singleton.mpr .empty

/-- The span of a section does not touch its text. -/
theorem extendSection (h : d.IsTidy) (span : Span) : (d.extendSection span).IsTidy := by
  cases hsection : d.openSection with
  | none => exact h.of_eq (by simp [Draft.extendSection, hsection]) rfl rfl
  | some s =>
    have hbuffers : (d.extendSection span).buffers = d.buffers := by
      simp [Draft.buffers, Draft.extendSection, hsection]
    exact ⟨h.alone.imp (fun hnone => by simp [hsection] at hnone) id,
      by rw [hbuffers]; exact h.buffers, h.texts⟩

/-- A fragment of text keeps a draft tidy, wherever it breaks lines. -/
theorem text (h : d.IsTidy) (t : Token) : (d.text t).IsTidy := by
  unfold Draft.text
  split
  · split
    · exact (h.edit fun _ => .dropLine).of_eq rfl rfl rfl
    · split
      · rename_i b hblock
        have hedit : d.edit (·.push t.text) =
            { d with openBlock := some (b.edit (·.push t.text)) } := by
          rw [Draft.edit, hblock]
        exact hedit ▸ h.edit fun _ hb => hb.push t.text
      · exact h.finishSection
  · refine IsTidy.setLine (IsTidy.edit ?_ fun _ hb => hb.push t.text) _ _
    split
    · exact h
    · exact h.extendSection t.span

/-- A block is opened where no section is open. -/
theorem openNew (h : d.IsTidy) (hsection : d.openSection = none) (opening : Opening) (span : Span)
    (rest : Text) : (d.openNew opening span rest).IsTidy := by
  unfold Draft.openNew
  split
  · exact h.report .nestedBlock span
  · refine ⟨.inl hsection, ?_, h.texts⟩
    rw [Draft.buffers, hsection]
    exact List.forall_mem_singleton.mpr (.ofLine rest)

/-- IF keeps a draft tidy where no section is open. -/
theorem conditional (h : d.IsTidy) (hsection : d.openSection = none) (span : Span)
    (arguments : Text) : (d.conditional span arguments).IsTidy := by
  unfold Draft.conditional
  split
  · exact h.openNew hsection ..
  · exact (h.report .malformedIf span).openNew hsection ..

/-- FOR EACH keeps a draft tidy where no section is open. -/
theorem forEach (h : d.IsTidy) (hsection : d.openSection = none) (span : Span)
    (arguments : Text) : (d.forEach span arguments).IsTidy := by
  unfold Draft.forEach
  split
  · exact h.openNew hsection ..
  · exact (h.report .malformedForEach span).openNew hsection ..

/-- The alternative of a condition begins with a text of its own. -/
theorem otherwise (h : d.IsTidy) (span : Span) (arguments : Text) :
    (d.otherwise span arguments).IsTidy := by
  unfold Draft.otherwise
  split
  · rename_i condition body opened hblock
    have hsection := h.alone.resolve_right (by simp [hblock])
    have hbody : body.IsLined := h.buffers body (by simp [Draft.buffers, hblock, OpenBlock.buffers])
    refine ⟨.inl hsection, ?_, h.texts⟩
    rw [Draft.buffers, hsection]
    exact List.forall_mem_cons.mpr ⟨hbody, List.forall_mem_singleton.mpr (.ofLine arguments)⟩
  · exact h.report .strayElse span

/-- END trims the texts of the block that it ends. -/
theorem finish (h : d.IsTidy) (keyword span : Span) : (d.finish keyword span).IsTidy := by
  unfold Draft.finish
  split
  · rename_i b hblock
    exact h.addBlock b _
  · exact h.report .strayEnd span

/-- A call keeps a draft tidy. -/
theorem callApi (h : d.IsTidy) (span : Span) (arguments : Text) :
    (d.callApi span arguments).IsTidy := by
  unfold Draft.callApi
  split
  · exact h.of_eq rfl rfl rfl
  · exact h.report _ span

/-- A statement ends the open section before it does what it says. -/
theorem statement (h : d.IsTidy) (keyword : Token) (rest : Option Token) :
    (d.statement keyword rest).IsTidy := by
  have hsection : (d.finishSection.setLine true false).openSection = none :=
    openSection_finishSection d
  have hready := h.finishSection.setLine true false
  unfold Draft.statement
  dsimp only
  cases statementWords.lookup (Text.words keyword.text) with
  | none => exact hready.report ..
  | some word =>
    cases word with
    | conditional => exact hready.conditional hsection ..
    | forEach => exact hready.forEach hsection ..
    | onError => exact hready.openNew hsection ..
    | otherwise => exact hready.otherwise ..
    | finish => exact hready.finish ..
    | callApi => exact hready.callApi ..

/-- A body that ran to the end of its line drops that line, if the line held nothing else. -/
theorem tail (h : d.IsTidy) (kind : Text) (span : Span) (tail : Item.Tail) :
    (d.tail kind span tail).1.IsTidy := by
  cases tail with
  | none => exact h
  | braced opening inner closing =>
    simp only [Draft.tail]
    split
    · exact h.report ..
    · exact h
  | unterminated mark recovered =>
    simp only [Draft.tail]
    have hreported (problem : Document.Problem) := h.report problem mark.span
    split
    · refine IsTidy.setLine ?_ true false
      split
      · exact (hreported _).edit fun _ => .dropLine
      · exact hreported _
    · exact hreported _

/-- A reference keeps a draft tidy, whatever is recovered as its body. -/
theorem reference (h : d.IsTidy) (start : Token) (name target : Option Token) (tail : Item.Tail) :
    (d.reference start name target tail).IsTidy := by
  have hmarked : { d with lineHasReference := true }.IsTidy := h.of_eq rfl rfl rfl
  exact (hmarked.tail _ _ tail).of_eq rfl rfl rfl

/-- A stray token keeps a draft tidy. -/
theorem stray (h : d.IsTidy) (t : Token) (skipped : List Token) : (d.stray t skipped).IsTidy := by
  have hclosed : (if t.kind = .sectionKeyword then d.closeAll else d).IsTidy := by
    split
    · exact h.closeAll
    · exact h
  unfold Draft.stray
  dsimp only
  split
  · exact (hclosed.report ..).setLine true false
  · exact hclosed.report ..

/-- Every item keeps a draft tidy, whatever its tokens are. -/
theorem apply (h : d.IsTidy) (item : Item) : (d.apply item).IsTidy := by
  cases item with
  | header t kind => exact h.header t kind
  | statement keyword rest => exact h.statement keyword rest
  | text t => exact h.text t
  | reference start name target tail => exact h.reference start name target tail
  | stray t skipped => exact h.stray t skipped

/-- Items in a row keep a draft tidy, whatever they are. -/
theorem applyAll (h : d.IsTidy) (items : List Item) : (d.applyAll items).IsTidy := by
  induction items generalizing d with
  | nil => exact h
  | cons item items ih => exact ih (h.apply item)

end IsTidy

end Draft

/-- Whether the current line of a text begins where the text does or directly after a line break, so
that dropping the line takes away what comes after that line break and nothing else. -/
structure CheckedBuffer.IsLined (b : CheckedBuffer) : Prop where
  /-- The current line begins within the text. -/
  lineStart_le : b.lineStart ≤ Text.byteLength b.text
  /-- It begins where the text does, or directly after a line break. -/
  lineStart_eq : b.lineStart = 0 ∨ ∃ before after, b.text = before ++ '\n' :: after ∧
    b.lineStart = Text.byteLength (before ++ ['\n'])
  /-- Dropping it cuts the text where it begins, between two characters. What goes does not end in a
  line break. -/
  dropLine : ∃ kept line, b.text = kept ++ line ∧ Text.byteLength kept = b.lineStart ∧
    Text.endsLine line = false ∧ b.dropLine? = some ⟨kept, b.lineStart⟩

/-- A lined text is lined in place: its current line begins past a line break. -/
theorem TextBuffer.IsLined.ofBuffer {b : TextBuffer} (h : b.IsLined) :
    (CheckedBuffer.ofBuffer b).IsLined where
  lineStart_le := by
    have hlength : Text.byteLength b.text =
        Text.byteLength b.settled + Text.byteLength b.pending :=
      Text.byteLength_append b.settled b.pending
    exact hlength ▸ Nat.le_add_right _ _
  lineStart_eq := by
    refine h.settled.imp (fun hnil => ?_) fun hends => ?_
    · exact (congrArg Text.byteLength hnil).trans Text.byteLength_nil
    · have hlast : b.settled.getLast? = some '\n' := by simpa [Text.endsLine] using hends
      obtain ⟨before, hsettled⟩ := List.getLast?_eq_some_iff.mp hlast
      exact ⟨before, b.pending, by simp [CheckedBuffer.ofBuffer, TextBuffer.text, hsettled],
        congrArg Text.byteLength hsettled⟩
  dropLine := by
    have hkept : CheckedBuffer.ofBuffer b.dropLine = ⟨b.settled, Text.byteLength b.settled⟩ := by
      simp [CheckedBuffer.ofBuffer, TextBuffer.dropLine, TextBuffer.text]
    exact ⟨b.settled, b.pending, rfl, rfl, h.pending,
      (CheckedBuffer.dropLine?_ofBuffer b).trans (congrArg some hkept)⟩

namespace CheckedParser

/-- What the parser keeps to, whatever its tokens are. -/
structure IsTidy (m : CheckedParser) : Prop where
  /-- A section and a block are not open at once. -/
  alone : m.openSection = none ∨ m.openBlock = none
  /-- The current line of every text being collected begins at a line break. -/
  buffers : ∀ b ∈ m.buffers, b.IsLined
  /-- The sections and the branches of the blocks in the document are trimmed. -/
  texts : ∀ t ∈ m.document.texts, Text.trim t = t

/-- The parser in place collects the texts of the draft. -/
theorem buffers_ofDraft (tokens : List Token) (d : Draft) :
    (ofDraft tokens d).buffers = d.buffers.map .ofBuffer := by
  have hblock (b : OpenBlock) : (CheckedBlock.ofOpen b).buffers = b.buffers.map .ofBuffer := by
    obtain ⟨opening, body, otherwise, span⟩ := b
    cases otherwise <;> rfl
  cases hs : d.openSection <;> cases hb : d.openBlock <;>
    simp [buffers, Draft.buffers, ofDraft, hs, hb, CheckedSection.ofOpen, hblock]

/-- A tidy draft is tidy in place. -/
theorem isTidy_ofDraft (tokens : List Token) {d : Draft} (h : d.IsTidy) :
    (ofDraft tokens d).IsTidy where
  alone := h.alone.imp (congrArg (Option.map _)) (congrArg (Option.map _))
  buffers := by
    rw [buffers_ofDraft, List.forall_mem_map]
    exact fun b hb => (h.buffers b hb).ofBuffer
  texts := h.texts

/-- Every state of the parser stands for the draft after the items taken so far. -/
theorem Reaches.exists_taken {tokens : List Token} {m : CheckedParser} (h : Reaches tokens m) :
    ∃ taken, Item.ofTokens tokens = taken ++ Item.ofTokens m.tokens ∧
      m = ofDraft m.tokens (Draft.empty.applyAll taken) := by
  induction h with
  | start => exact ⟨[], rfl, rfl⟩
  | @next m after _ hnext ih =>
    obtain ⟨taken, hitems, hm⟩ := ih
    rw [hm] at hnext
    cases hleft : m.tokens with
    | nil =>
      rw [hleft] at hnext
      cases hnext
    | cons t rest =>
      rw [hleft, next?_ofDraft] at hnext
      split at hnext
      · cases hnext
      · rename_i hmore
        cases hnext
        refine ⟨taken ++ [(Item.first t rest).1], ?_, ?_⟩
        · rw [hitems, hleft, Item.ofTokens, if_neg hmore]
          simp
        · simp [Draft.applyAll]

/-- No check fails in a step from a state that stands for a draft. -/
theorem exists_next?_ofDraft (tokens : List Token) (d : Draft) :
    ∃ result, (ofDraft tokens d).next? = some result := by
  cases tokens with
  | nil => exact ⟨none, rfl⟩
  | cons t rest =>
    rw [next?_ofDraft]
    split
    · exact ⟨_, rfl⟩
    · exact ⟨_, rfl⟩

end CheckedParser

/-- On every list of tokens, and after every step, the parser has no section open beside a block,
every text that it collects has its current line begin at the start of the text or directly after a
line break, and what is in the document is trimmed. No step fails a check: where a line is dropped,
the text is cut between two characters, and only what comes after that line break goes. Each state
stands for the draft after the items taken so far, so the run gives the document of the tokens, and
all texts of it are trimmed. -/
theorem parser_stays_tidy (tokens : List Token) :
    (∀ m, CheckedParser.Reaches tokens m → m.IsTidy ∧ (∃ result, m.next? = some result) ∧
      ∃ taken, Item.ofTokens tokens = taken ++ Item.ofTokens m.tokens ∧
        m = .ofDraft m.tokens (Draft.empty.applyAll taken)) ∧
      (CheckedParser.ofTokens tokens).run? = some (Parsed.ofTokens tokens) ∧
      ∀ t ∈ (Parsed.ofTokens tokens).document.texts, Text.trim t = t := by
  refine ⟨fun m h => ?_, CheckedParser.run?_ofDraft tokens .empty, ?_⟩
  · obtain ⟨taken, hitems, hm⟩ := h.exists_taken
    have htidy := Draft.IsTidy.empty.applyAll taken
    refine ⟨?_, ?_, taken, hitems, hm⟩
    · rw [hm]
      exact CheckedParser.isTidy_ofDraft m.tokens htidy
    · rw [hm]
      exact CheckedParser.exists_next?_ofDraft m.tokens _
  · exact (Draft.IsTidy.empty.applyAll (Item.ofTokens tokens)).close.texts

/-- A line break inside a fragment begins no line. It goes when the line that it stands in held
nothing but a reference. -/
theorem parser_stays_tidy_inner : ∃ m after, CheckedParser.Reaches
    [⟨.sectionKeyword, "task:".toList, ⟨1, 1⟩⟩, ⟨.text, "é\nb\n".toList, ⟨1, 6⟩⟩,
      ⟨.text, " \n\t".toList, ⟨3, 1⟩⟩, ⟨.referenceStart, ['@'], ⟨4, 2⟩⟩,
      ⟨.text, ['\n'], ⟨4, 3⟩⟩] m ∧
    m.buffers = [⟨"é\nb\n \n\t".toList, 5⟩] ∧ m.IsTidy ∧
    m.next? = some (some after) ∧ after.buffers = [⟨"é\nb\n".toList, 5⟩] := by
  have hstart := @CheckedParser.Reaches.start
    [⟨.sectionKeyword, "task:".toList, ⟨1, 1⟩⟩, ⟨.text, "é\nb\n".toList, ⟨1, 6⟩⟩,
      ⟨.text, " \n\t".toList, ⟨3, 1⟩⟩, ⟨.referenceStart, ['@'], ⟨4, 2⟩⟩,
      ⟨.text, ['\n'], ⟨4, 3⟩⟩]
  have hreach := CheckedParser.Reaches.next (.next (.next (.next hstart rfl) rfl) rfl) rfl
  exact ⟨_, _, hreach, rfl, ((parser_stays_tidy _).1 _ hreach).1, rfl, rfl⟩

end PromptScript
