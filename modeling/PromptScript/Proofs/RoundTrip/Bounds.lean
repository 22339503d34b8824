import PromptScript.Proofs.Parsing.References
import PromptScript.Proofs.RoundTrip.Meter

/-!
# What sections and blocks collect

The ink of the first section of a kind and that of a block are meters: text adds no more than its
ink, and what ends the section or the block does not add any.
-/

namespace PromptScript

namespace TextBuffer

/-- Text that is added comes after what was collected. -/
theorem text_push (b : TextBuffer) (t : Text) : (b.push t).text = b.text ++ t := by
  unfold push
  split
  · simp [text]
  · simp [text]

/-- A line of its own has the ink of its text. -/
theorem ink_ofLine (t : Text) : Text.ink (ofLine t).text = Text.ink t := by
  have hbreak : Text.ink ['\n'] = [] := by decide
  have hempty : empty.text = [] := rfl
  unfold ofLine
  split
  · rename_i hnil
    rw [List.isEmpty_iff.mp hnil]
    rfl
  · rw [text_push, text_push, hempty, List.nil_append, Text.ink_append, hbreak, List.append_nil]

/-- Dropping a line adds no ink. -/
theorem length_ink_dropLine (b : TextBuffer) :
    (Text.ink b.dropLine.text).length ≤ (Text.ink b.text).length := by
  simp [dropLine, text]

end TextBuffer

namespace Outline

/-- The text of the first finished section of a kind. -/
def sectionOf? (o : Outline) (kind : SectionKind) : Option Text :=
  (o.sections.find? (·.1 == kind)).map (·.2)

/-- Whether the first section of a kind, open or finished, has no more than so much ink. -/
def SectionBound (kind : SectionKind) (n : Nat) (o : Outline) : Prop :=
  (∃ t, o.sectionOf? kind = some t ∧ (Text.ink t).length ≤ n) ∨
    (o.sectionOf? kind = none ∧ o.openBlock = none ∧
      ∃ body, o.openSection = some ⟨kind, body⟩ ∧ (Text.ink body.text).length ≤ n)

variable {kind : SectionKind} {n : Nat} {o m : Outline}

/-- A finished section stays the first of its kind. -/
theorem sectionOf?_of_isPrefix {t : Text} (h : o.sections <+: m.sections)
    (ht : o.sectionOf? kind = some t) : m.sectionOf? kind = some t := by
  obtain ⟨more, hmore⟩ := h
  obtain ⟨s, hs, rfl⟩ := Option.map_eq_some_iff.mp ht
  rw [sectionOf?, ← hmore, List.find?_append, hs]
  rfl

/-- A finished section stays the first of its kind, whatever comes after it. -/
theorem SectionBound.of_isPrefix {t : Text} (h : o.sections <+: m.sections)
    (ht : o.sectionOf? kind = some t) (hink : (Text.ink t).length ≤ n) : SectionBound kind n m :=
  Or.inl ⟨t, sectionOf?_of_isPrefix h ht, hink⟩

/-- Finishing the section that is open bounds it for good. -/
theorem sectionOf?_finishSection {body : TextBuffer} (hnone : o.sectionOf? kind = none)
    (hs : o.openSection = some ⟨kind, body⟩) :
    o.finishSection.sectionOf? kind = some body.finish := by
  have hfind : o.sections.find? (·.1 == kind) = none := Option.map_eq_none_iff.mp hnone
  rw [sectionOf?, finishSection, hs]
  simp [List.find?_append, hfind]

/-- The bound on an open section is one on the section that it ends as. -/
theorem SectionBound.finish (h : SectionBound kind n o) :
    ∃ t, o.finishSection.sectionOf? kind = some t ∧ (Text.ink t).length ≤ n := by
  rcases h with ⟨t, ht, hink⟩ | ⟨hnone, -, body, hs, hink⟩
  · exact ⟨t, sectionOf?_of_isPrefix (Extends.finishSection o).sections ht, hink⟩
  · exact ⟨_, sectionOf?_finishSection hnone hs, by rwa [TextBuffer.finish, Text.ink_trim]⟩

/-- Outside blocks text is collected in the open section. -/
theorem edit_of_openSection {s : SectionOutline} (hb : o.openBlock = none)
    (hs : o.openSection = some s) (change : TextBuffer → TextBuffer) :
    o.edit change = { o with openSection := some { s with body := change s.body } } := by
  unfold edit
  rw [hb, hs]

/-- A bound on a section can be raised. -/
theorem SectionBound.mono {k : Nat} (h : SectionBound kind n o) (hle : n ≤ k) :
    SectionBound kind k o := by
  rcases h with ⟨t, ht, hink⟩ | ⟨hnone, hb, body, hs, hink⟩
  · exact Or.inl ⟨t, ht, Nat.le_trans hink hle⟩
  · exact Or.inr ⟨hnone, hb, body, hs, Nat.le_trans hink hle⟩

/-- The ink of the first section of a kind is a meter. -/
theorem isMeter_sectionBound (kind : SectionKind) : IsMeter (SectionBound kind) where
  mono := SectionBound.mono
  text := by
    intro n o t h
    rcases h with ⟨s, hs, hink⟩ | ⟨hnone, hb, body, hs, hink⟩
    · exact .of_isPrefix (Extends.text o t).sections hs (Nat.le_add_right_of_le hink)
    · have hopen : SectionBound kind n o := Or.inr ⟨hnone, hb, body, hs, hink⟩
      unfold text
      split
      · split
        · rw [edit_of_openSection hb hs]
          exact Or.inr ⟨hnone, hb, body.dropLine, rfl,
            Nat.le_add_right_of_le (Nat.le_trans body.length_ink_dropLine hink)⟩
        · rw [hb]
          obtain ⟨s, hfinished, hbound⟩ := hopen.finish
          exact Or.inl ⟨s, hfinished, Nat.le_add_right_of_le hbound⟩
      · rw [edit_of_openSection hb hs]
        refine Or.inr ⟨hnone, hb, body.push t, rfl, ?_⟩
        rw [TextBuffer.text_push, Text.ink_append, List.length_append]
        exact Nat.add_le_add_right hink _
  header := by
    intro n o k h
    obtain ⟨t, ht, hink⟩ := h.finish
    exact .of_isPrefix (Extends.finishBlock o.finishSection).sections ht hink
  statement := by
    intro n o word line h
    obtain ⟨t, ht, hink⟩ := h.finish
    have hstatement : o.finishSection.sections <+: (o.statement word (some line)).sections := by
      unfold statement
      split
      · exact (Extends.perform (o.finishSection.setLine true false) _ _).sections
      · exact List.prefix_rfl
    exact .of_isPrefix hstatement ht (Nat.le_add_right_of_le hink)

/-- A blank line ends the section that is open. -/
theorem SectionBound.text_break (h : SectionBound kind n o) (hfresh : o.IsFresh) :
    ∃ t, (o.text ['\n']).sectionOf? kind = some t ∧ (Text.ink t).length ≤ n := by
  rcases h with ⟨t, ht, hink⟩ | ⟨hnone, hb, body, hs, hink⟩
  · exact ⟨t, sectionOf?_of_isPrefix (Extends.text o _).sections ht, hink⟩
  · have htext : o.text ['\n'] = o.finishSection := by
      unfold text
      rw [if_pos ⟨hfresh.1, by decide, by decide⟩, if_neg (by simp [hfresh.2]), hb]
    rw [htext]
    exact SectionBound.finish (Or.inr ⟨hnone, hb, body, hs, hink⟩)

end Outline

namespace Block

/-- The statement that opens a block. -/
def opening : Block → Opening
  | conditional condition _ _ => .conditional condition
  | forEach item collection _ => .forEach item collection
  | onError _ => .onError

/-- The text of a block. -/
def body : Block → Text
  | conditional _ body _ => body
  | forEach _ _ body => body
  | onError body => body

/-- The text of the alternative of a block; empty if it has none. -/
def otherwise : Block → Text
  | conditional _ _ other => other
  | _ => []

/-- The ink of the texts of a block. -/
def inkLength (b : Block) : Nat :=
  (Text.ink b.body).length + (Text.ink b.otherwise).length

end Block

namespace BlockOutline

/-- The ink collected in a block. -/
def inkLength (b : BlockOutline) : Nat :=
  (Text.ink b.body.text).length + (Text.ink ((b.otherwise.map TextBuffer.text).getD [])).length

/-- A block keeps the opening that it was opened with. -/
theorem opening_block (b : BlockOutline) : b.block.opening = b.opening := by
  obtain ⟨opening, body, otherwise⟩ := b
  cases opening <;> rfl

/-- Finishing a block adds no ink. -/
theorem inkLength_block (b : BlockOutline) : b.block.inkLength ≤ b.inkLength := by
  obtain ⟨opening, body, otherwise⟩ := b
  have hbody : Text.ink body.finish = Text.ink body.text := Text.ink_trim _
  cases opening with
  | conditional condition =>
    have hother : Text.ink ((otherwise.map TextBuffer.finish).getD []) =
        Text.ink ((otherwise.map TextBuffer.text).getD []) := by
      cases otherwise with
      | none => rfl
      | some other => exact Text.ink_trim _
    simp [block, Block.inkLength, Block.body, Block.otherwise, inkLength, hbody, hother]
  | forEach => simp [block, Block.inkLength, Block.body, Block.otherwise, inkLength, hbody]
  | onError => simp [block, Block.inkLength, Block.body, Block.otherwise, inkLength, hbody]

/-- Text adds its ink to that of the block. -/
theorem inkLength_push (b : BlockOutline) (t : Text) :
    (b.edit (·.push t)).inkLength = b.inkLength + (Text.ink t).length := by
  obtain ⟨opening, body, otherwise⟩ := b
  cases otherwise with
  | none => simp [edit, inkLength, TextBuffer.text_push]
  | some buffer =>
    simp [edit, inkLength, TextBuffer.text_push]
    omega

/-- Dropping a line of a block adds no ink. -/
theorem inkLength_dropLine (b : BlockOutline) : (b.edit .dropLine).inkLength ≤ b.inkLength := by
  obtain ⟨opening, body, otherwise⟩ := b
  cases otherwise with
  | none => simpa [edit, inkLength] using body.length_ink_dropLine
  | some other => simpa [edit, inkLength] using other.length_ink_dropLine

end BlockOutline

namespace Outline

/-- Whether the block after so many others, open or finished, has an opening and no more than so
much ink. -/
def BlockBound (i : Nat) (opening : Opening) (n : Nat) (o : Outline) : Prop :=
  (∃ b, o.blocks[i]? = some b ∧ b.opening = opening ∧ b.inkLength ≤ n) ∨
    (o.blocks.length = i ∧ ∃ b, o.openBlock = some b ∧ b.opening = opening ∧ b.inkLength ≤ n)

variable {i n : Nat} {opening : Opening} {o m : Outline}

/-- A finished block stays where it is, whatever comes after it. -/
theorem getElem?_of_isPrefix {b : Block} (h : o.blocks <+: m.blocks) (hb : o.blocks[i]? = some b) :
    m.blocks[i]? = some b := by
  obtain ⟨more, hmore⟩ := h
  obtain ⟨hlt, -⟩ := List.getElem?_eq_some_iff.mp hb
  rw [← hmore, List.getElem?_append_left hlt, hb]

/-- A finished block stays where it is. -/
theorem BlockBound.of_isPrefix {b : Block} (h : o.blocks <+: m.blocks) (hb : o.blocks[i]? = some b)
    (hopening : b.opening = opening) (hink : b.inkLength ≤ n) : BlockBound i opening n m :=
  Or.inl ⟨b, getElem?_of_isPrefix h hb, hopening, hink⟩

/-- Finishing the block that is open bounds it for good. -/
theorem BlockBound.finish (h : BlockBound i opening n o) :
    ∃ b, o.finishBlock.blocks[i]? = some b ∧ b.opening = opening ∧ b.inkLength ≤ n := by
  rcases h with ⟨b, hb, hopening, hink⟩ | ⟨hi, b, hb, hopening, hink⟩
  · exact ⟨b, getElem?_of_isPrefix (Extends.finishBlock o).blocks hb, hopening, hink⟩
  · refine ⟨b.block, ?_, by rw [b.opening_block, hopening], Nat.le_trans b.inkLength_block hink⟩
    rw [finishBlock, hb, ← hi]
    simp

/-- A bound on a block depends only on the blocks. -/
theorem BlockBound.congr (h : BlockBound i opening n o) (hblocks : m.blocks = o.blocks)
    (hopen : m.openBlock = o.openBlock) : BlockBound i opening n m := by
  rw [BlockBound, hblocks, hopen]
  exact h

/-- The end of a section does not touch blocks. -/
theorem BlockBound.finishSection (h : BlockBound i opening n o) :
    BlockBound i opening n o.finishSection := by
  refine h.congr ?_ ?_
  all_goals
    unfold Outline.finishSection
    split <;> rfl

/-- No block opens inside another. -/
theorem openNew_of_openBlock {b : BlockOutline} (hb : o.openBlock = some b) (opening : Opening)
    (t : Text) : o.openNew opening t = o := by
  rw [openNew, hb]

/-- Text is collected in the open block. -/
theorem edit_of_openBlock {b : BlockOutline} (hb : o.openBlock = some b)
    (change : TextBuffer → TextBuffer) : o.edit change = { o with openBlock := some (b.edit change) } := by
  unfold edit
  rw [hb]

/-- A statement where a block is open begins its alternative, ends it or leaves it alone. -/
theorem BlockBound.perform (h : BlockBound i opening n o) (word : Draft.StatementWord)
    (arguments : Text) :
    BlockBound i opening (n + (Text.ink arguments).length) (o.perform word arguments) := by
  rcases h with ⟨b, hb, hopening, hink⟩ | ⟨hi, b, hb, hopening, hink⟩
  · exact .of_isPrefix (Extends.perform o word arguments).blocks hb hopening
      (Nat.le_add_right_of_le hink)
  · have hsame : BlockBound i opening (n + (Text.ink arguments).length) o :=
      Or.inr ⟨hi, b, hb, hopening, Nat.le_add_right_of_le hink⟩
    cases word with
    | conditional =>
      unfold Outline.perform conditional
      dsimp only
      split <;> rwa [openNew_of_openBlock hb]
    | forEach =>
      unfold Outline.perform forEach
      dsimp only
      split <;> rwa [openNew_of_openBlock hb]
    | onError =>
      unfold Outline.perform
      dsimp only
      rwa [openNew_of_openBlock hb]
    | otherwise =>
      unfold Outline.perform otherwise
      dsimp only
      split
      · rename_i condition body hopen
        rw [hopen] at hb
        cases hb
        refine Or.inr ⟨hi, _, rfl, hopening, ?_⟩
        have hlength := congrArg List.length (TextBuffer.ink_ofLine arguments)
        simp only [BlockOutline.inkLength, Option.map_some, Option.map_none, Option.getD_some,
          Option.getD_none, Text.ink_nil, List.length_nil, hlength] at hink ⊢
        omega
      · exact hsame
    | finish =>
      obtain ⟨c, hc, hcopening, hcink⟩ := hsame.finish
      exact Or.inl ⟨c, hc, hcopening, hcink⟩
    | callApi =>
      unfold Outline.perform callApi
      dsimp only
      split <;> exact hsame

/-- A bound on a block can be raised. -/
theorem BlockBound.mono {k : Nat} (h : BlockBound i opening n o) (hle : n ≤ k) :
    BlockBound i opening k o := by
  rcases h with ⟨b, hb, hopening, hink⟩ | ⟨hi, b, hb, hopening, hink⟩
  · exact Or.inl ⟨b, hb, hopening, Nat.le_trans hink hle⟩
  · exact Or.inr ⟨hi, b, hb, hopening, Nat.le_trans hink hle⟩

/-- The ink of a block is a meter. -/
theorem isMeter_blockBound (i : Nat) (opening : Opening) : IsMeter (BlockBound i opening) where
  mono := BlockBound.mono
  text := by
    intro n o t h
    rcases h with ⟨b, hb, hopening, hink⟩ | ⟨hi, b, hb, hopening, hink⟩
    · exact .of_isPrefix (Extends.text o t).blocks hb hopening (Nat.le_add_right_of_le hink)
    · have hkept (change : TextBuffer → TextBuffer) : (b.edit change).opening = opening := by
        rw [← hopening]
        unfold BlockOutline.edit
        split <;> rfl
      unfold text
      split
      · split
        · rw [edit_of_openBlock hb]
          exact Or.inr ⟨hi, _, rfl, hkept _,
            Nat.le_add_right_of_le (Nat.le_trans b.inkLength_dropLine hink)⟩
        · rw [hb]
          refine Or.inr ⟨hi, _, rfl, hkept _, ?_⟩
          rw [BlockOutline.inkLength_push]
          exact Nat.add_le_add_right hink _
      · rw [edit_of_openBlock hb]
        refine Or.inr ⟨hi, _, rfl, hkept _, ?_⟩
        rw [BlockOutline.inkLength_push]
        exact Nat.add_le_add_right hink _
  header := by
    intro n o kind h
    obtain ⟨b, hb, hopening, hink⟩ := h.finishSection.finish
    exact Or.inl ⟨b, hb, hopening, hink⟩
  statement := by
    intro n o word line h
    have hready : BlockBound i opening n (o.finishSection.setLine true false) :=
      h.finishSection.congr rfl rfl
    unfold statement
    dsimp only
    split
    · rename_i w _
      have hdone := hready.perform w (Text.trim line)
      rw [Text.ink_trim] at hdone
      exact hdone
    · exact hready.mono (Nat.le_add_right _ _)

end Outline

end PromptScript
