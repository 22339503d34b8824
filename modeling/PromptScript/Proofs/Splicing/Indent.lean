import PromptScript.Proofs.Splicing.Splice
import PromptScript.Proofs.Splicing.Standing

/-!
# Indents of calls

A call inside a block is no part of its text, but the white space before the call is. It joins the
line that the text of the branch is at, so it stays between the text before the call and the text
after it, unless that line is dropped with one of references.
-/

namespace PromptScript

/-- The text of a branch of a block; empty if there is no such branch. -/
def Block.branchText (b : Block) (alternative : Bool) : Text :=
  (b.branches[alternative.toNat]?).getD []

/-- Blocks are the same if their openings and their branches are. -/
theorem Block.ext_branch {a b : Block} (hopening : a.opening = b.opening)
    (hbranch : ∀ alternative, a.branchText alternative = b.branchText alternative) : a = b := by
  have hbody := hbranch false
  have hotherwise := hbranch true
  cases a <;> cases b <;> simp_all [branchText, branches, opening]

/-- A block is known by its parts. -/
theorem Block.parts_injective : Function.Injective parts := by
  intro a b h
  obtain ⟨hopening, hbranches⟩ := Prod.mk.inj h
  exact ext_branch hopening fun alternative => by rw [branchText, hbranches, branchText]

/-- The items that a branch goes on with past a cut. -/
def Item.inBranch (awaitsOtherwise : Bool) (items : List Item) : List Item :=
  (items.takeWhile (!·.endsBlock)).takeWhile fun item => !(awaitsOtherwise && item.isOtherwise)

/-- A branch with more items. -/
def Branch.append (branch : Branch) (more : List Item) : Branch :=
  { branch with items := branch.items ++ more }

namespace BlockRegion

variable (region : BlockRegion) (more : List Item)

/-- Whether the alternative of a condition has begun. -/
def hasOtherwise : Bool :=
  region.opening.variant == .conditional && region.items.any Item.isOtherwise

/-- Whether the region is one of a condition whose alternative has not begun. -/
def awaitsOtherwise : Bool :=
  region.opening.variant == .conditional && !region.hasOtherwise

/-- The branch that more items belong to. -/
def current : Branch :=
  if region.hasOtherwise then .otherwise region.items else ⟨region.line, region.items⟩

/-- The text that a branch collects. -/
def branchText (alternative : Bool) : Text :=
  ((region.branches.map Branch.text)[alternative.toNat]?).getD []

/-- A block with the parts of a region has its branches. -/
theorem branchText_of_parts {region : BlockRegion} {b : Block} (h : b.parts = region.parts) :
    b.opening = region.opening ∧ ∀ alternative, b.branchText alternative =
      region.branchText alternative := by
  obtain ⟨hopening, hbranches⟩ := Prod.mk.inj h
  exact ⟨hopening, fun alternative => by rw [Block.branchText, hbranches, branchText]⟩

/-- The branch that is being collected is the last one of its region. -/
theorem items_current_suffix : region.current.items <:+ region.items := by
  unfold current
  split
  · unfold Branch.otherwise
    split
    · exact List.nil_suffix
    · rename_i item rest hafter
      exact (List.suffix_cons item rest).trans (hafter ▸ List.dropWhile_suffix _)
  · exact List.suffix_refl _

/-- The current branch goes on with more items up to the one that begins the alternative. -/
theorem branchText_append : (region.append more).branchText region.hasOtherwise =
    (region.current.append
      (more.takeWhile fun item => !(region.awaitsOtherwise && item.isOtherwise))).text := by
  have hself : more.takeWhile (fun _ => true) = more := List.takeWhile_eq_self_iff.mpr (by simp)
  have hforEach : (BlockVariant.forEach == .conditional) = false := rfl
  have honError : (BlockVariant.onError == .conditional) = false := rfl
  obtain ⟨opening, line, items⟩ := region
  cases opening with
  | conditional condition =>
    cases hany : items.any Item.isOtherwise with
    | false =>
      have hall : ∀ item ∈ items, (!item.isOtherwise) = true := by simpa using hany
      simp [branchText, append, branches, current, awaitsOtherwise, hasOtherwise, Opening.variant, hany,
        Branch.append, List.takeWhile_append_of_pos hall]
    | true =>
      obtain ⟨found, hmem, hfound⟩ := List.any_eq_true.mp hany
      have hne : items.dropWhile (!·.isOtherwise) ≠ [] := fun hnil => by
        have hnone := List.dropWhile_eq_nil_iff.mp hnil found hmem
        simp [hfound] at hnone
      obtain ⟨item, rest, hafter⟩ := List.exists_cons_of_ne_nil hne
      simp [branchText, append, branches, current, awaitsOtherwise, hasOtherwise, Opening.variant, hany,
        Branch.append, Branch.otherwise, List.dropWhile_append, hafter, hself]
  | forEach | onError =>
    simp [branchText, append, branches, current, awaitsOtherwise, hasOtherwise, Opening.variant,
      Branch.append, hself, hforEach, honError]

/-- Items that do not begin the alternative are no part of the other branch. -/
theorem branchText_append_other {items : List Item} (h : ∀ item ∈ items, item.isOtherwise = false) :
    (region.append (items ++ more)).branchText (!region.hasOtherwise) =
      (region.append more).branchText (!region.hasOtherwise) := by
  obtain ⟨opening, line, inner⟩ := region
  cases opening with
  | conditional condition =>
    cases hany : inner.any Item.isOtherwise with
    | false =>
      have hall : ∀ item ∈ inner, (!item.isOtherwise) = true := by simpa using hany
      have hnone : ∀ item ∈ items, (!item.isOtherwise) = true := by simpa using h
      simp [branchText, append, branches, hasOtherwise, Opening.variant, hany, Branch.otherwise,
        List.dropWhile_append_of_pos hall, List.dropWhile_append_of_pos hnone]
    | true =>
      obtain ⟨found, hmem, hfound⟩ := List.any_eq_true.mp hany
      have hne : ¬(inner.takeWhile (!·.isOtherwise)).length = inner.length := fun hlength => by
        have hall := List.takeWhile_eq_self_iff.mp
          ((List.takeWhile_prefix (!·.isOtherwise)).eq_of_length hlength) found hmem
        simp [hfound] at hall
      simp [branchText, append, branches, hasOtherwise, Opening.variant, hany, List.takeWhile_append, hne]
  | forEach | onError => simp [branchText, append, branches, hasOtherwise, Opening.variant]

end BlockRegion

/-- The items of a line that makes a call with some arguments: its indent, if it has one, and the
call. -/
inductive Item.IsCallLine (arguments : Text) : Text → List Item → Prop
  | plain {call : Item} (hword : call.word? = some .callApi)
      (harguments : call.arguments = arguments) : IsCallLine arguments [] [call]
  | indented {t : Token} {call : Item} (hword : call.word? = some .callApi)
      (harguments : call.arguments = arguments) : IsCallLine arguments t.text [.text t, call]

/-- The items of the line of a call are white space and the call. -/
theorem Item.IsCallLine.exists_statement {arguments indent : Text} {items : List Item}
    (h : IsCallLine arguments indent items) {item : Item} (hitem : item ∈ items) :
    (∃ t, item = .text t) ∨
      ∃ keyword rest, item = .statement keyword rest ∧ item.word? = some .callApi := by
  have hcall {call : Item} (hword : call.word? = some .callApi) :
      ∃ keyword rest, call = .statement keyword rest ∧ call.word? = some .callApi := by
    cases call with
    | statement keyword rest => exact ⟨keyword, rest, rfl, hword⟩
    | _ => cases hword
  cases h with
  | plain hword =>
    obtain rfl := List.mem_singleton.mp hitem
    exact Or.inr (hcall hword)
  | @indented t _ hword =>
    rcases List.mem_cons.mp hitem with rfl | hitem
    · exact Or.inl ⟨t, rfl⟩
    · obtain rfl := List.mem_singleton.mp hitem
      exact Or.inr (hcall hword)

/-- A call ends no block and begins no alternative. -/
theorem Item.IsCallLine.stays {arguments indent : Text} {items : List Item}
    (h : IsCallLine arguments indent items) :
    (∀ item ∈ items, item.endsBlock = false) ∧ ∀ item ∈ items, item.isOtherwise = false := by
  refine ⟨fun item hitem => ?_, fun item hitem => ?_⟩ <;>
    obtain ⟨t, rfl⟩ | ⟨keyword, rest, rfl, hword⟩ := h.exists_statement hitem
  · rfl
  · simp [endsBlock, hword]
  · rfl
  · simp [isOtherwise, hword]

namespace Collecting

variable {c : Collecting}

/-- Whether the line just ended and nothing is known of the next one. -/
def IsFresh (c : Collecting) : Prop :=
  c.lineBlank = true ∧ c.lineHasReference = false

/-- Items in a row are collected one part after the other. -/
theorem run_append (c : Collecting) (items more : List Item) :
    c.run (items ++ more) = (c.run items).run more :=
  List.foldl_append

/-- Text that ends a line, and a statement, are followed by a fresh line. -/
theorem IsFresh.run (hc : c.IsFresh) {items : List Item}
    (hlast : ∀ item ∈ items.getLast?, (∃ t, item = .text t ∧ t.endsLine = true) ∨
      ∃ keyword rest, item = .statement keyword rest) : (c.run items).IsFresh := by
  rcases List.eq_nil_or_concat' items with rfl | ⟨init, item, rfl⟩
  · exact hc
  · rw [run_append, run_cons, run_nil]
    obtain ⟨t, rfl, hends⟩ | ⟨keyword, rest, rfl⟩ := hlast item (by rw [List.getLast?_concat]; rfl)
    · simp [IsFresh, step, hends]
    · exact ⟨rfl, rfl⟩

/-- A call leaves its indent on the line that the collected text is at. -/
theorem IsFresh.run_callLine (hc : c.IsFresh) {arguments indent : Text} {items : List Item}
    (h : Item.IsCallLine arguments indent items) (hblank : Text.isBlank indent = true)
    (hline : Text.endsLine indent = false) :
    c.run items = { c with buffer := ⟨c.buffer.settled, c.buffer.pending ++ indent⟩ } := by
  obtain ⟨buffer, lineBlank, lineHasReference⟩ := c
  obtain ⟨rfl, rfl⟩ : lineBlank = true ∧ lineHasReference = false := hc
  have hcall {c : Collecting} {call : Item} (hword : call.word? = some .callApi) :
      c.step call = ⟨c.buffer, true, false⟩ := by
    cases call with
    | statement keyword rest => simp [step, isBareAfter, Item.loose, TextBuffer.push_nil]
    | _ => cases hword
  cases h with
  | plain hword => simp [hcall hword]
  | @indented t call hword =>
    have hstep : (⟨buffer, true, false⟩ : Collecting).step (.text t) =
        ⟨⟨buffer.settled, buffer.pending ++ t.text⟩, true, false⟩ := by
      have hends : t.endsLine = false := hline
      have hwhite : t.isBlank = true := hblank
      simp [step, isBareAfter, Item.loose, TextBuffer.push, hline, hends, hwhite]
    rw [run_cons, run_cons, run_nil, hstep, hcall hword]

/-- An indent on the line that the collected text is at makes no difference in the end exactly if
there is none, or no text before it or after it, or the line is dropped. Otherwise it stays between
the two texts. -/
theorem finish_indent (c : Collecting) {indent : Text} (hblank : Text.isBlank indent = true)
    (items : List Item) {plain indented : Text} (hplain : plain = (c.run items).buffer.finish)
    (hindented : indented = ({ c with
      buffer := ⟨c.buffer.settled, c.buffer.pending ++ indent⟩ }.run items).buffer.finish) :
    (indented = plain ↔ indent = [] ∨ c.buffer.finish = [] ∨ plain = c.buffer.finish ∨
        c.dropsLine items = true) ∧
      (indented ≠ plain → ∃ u v, Text.trim u = c.buffer.finish ∧ plain = u ++ v ∧
        indented = u ++ indent ++ v) := by
  have hdropsAlike : dropsLine { c with
      buffer := ⟨c.buffer.settled, c.buffer.pending ++ indent⟩ } items = c.dropsLine items := rfl
  rw [TextBuffer.finish, text_run, stays] at hplain hindented
  rw [hdropsAlike] at hindented
  simp only [anew] at hplain hindented
  generalize ({ c with buffer := .empty }.run items).buffer.text = after at hplain hindented
  cases hdrops : c.dropsLine items with
  | true =>
    rw [if_pos hdrops] at hplain hindented
    have hsame : indented = plain := hindented.trans hplain.symm
    exact ⟨iff_of_true hsame (by simp), fun hne => absurd hsame hne⟩
  | false =>
    rw [if_neg (by simp [hdrops])] at hplain hindented
    have hbefore : c.buffer.settled ++ c.buffer.pending = c.buffer.text := rfl
    rw [← List.append_assoc, hbefore] at hindented
    rw [hbefore] at hplain
    obtain ⟨hiff, hstays⟩ := Text.trim_insert hblank c.buffer.text after
    rw [← hplain, ← hindented] at hiff hstays
    exact ⟨by simpa [TextBuffer.finish] using hiff, hstays⟩

end Collecting

namespace BlockRegion

/-- A call makes a difference to the text of the branch that it stands in exactly if it has an indent
between two texts on a line that is not dropped. Then the indent stays between the texts. -/
theorem branchText_callLine (region : BlockRegion) {arguments indent : Text} {items : List Item}
    (hline : Item.IsCallLine arguments indent items) (hblank : Text.isBlank indent = true)
    (hends : Text.endsLine indent = false)
    (hlast : ∀ item ∈ region.items.getLast?, (∃ t, item = .text t ∧ t.endsLine = true) ∨
      ∃ keyword rest, item = .statement keyword rest)
    (more : List Item) {opened plain called : Text}
    (hopened : opened = (region.append []).branchText region.hasOtherwise)
    (hplain : plain = (region.append more).branchText region.hasOtherwise)
    (hcalled : called = (region.append (items ++ more)).branchText region.hasOtherwise)
    {rest : List Item}
    (hrest : rest = more.takeWhile fun item => !(region.awaitsOtherwise && item.isOtherwise)) :
    (called = plain ↔ indent = [] ∨ opened = [] ∨ plain = opened ∨
        (Item.isForgotten rest || Item.vanishes false rest) = true) ∧
      (called ≠ plain → ∃ u v, Text.trim u = opened ∧ plain = u ++ v ∧
        called = u ++ indent ++ v) := by
  have htext (more : List Item) : (region.current.append more).text =
      (((Collecting.ofLine region.current.line).run region.current.items).run more).buffer.finish := by
    rw [← Collecting.run_append]
    rfl
  have hfresh : ((Collecting.ofLine region.current.line).run region.current.items).IsFresh := by
    have hstart : (Collecting.ofLine region.current.line).IsFresh := ⟨rfl, rfl⟩
    refine hstart.run fun item hitem => hlast item ?_
    obtain ⟨front, hfront⟩ := region.items_current_suffix
    rw [← hfront, List.getLast?_append, hitem]
    rfl
  have hboth : (items ++ more).takeWhile (fun item => !(region.awaitsOtherwise && item.isOtherwise)) =
      items ++ rest := by
    rw [List.takeWhile_append_of_pos fun item hitem => by simp [hline.stays.2 item hitem], hrest]
  rw [branchText_append, htext] at hopened hplain hcalled
  rw [← hrest] at hplain
  rw [hboth, Collecting.run_append, hfresh.run_callLine hline hblank hends] at hcalled
  obtain ⟨hiff, hstays⟩ := Collecting.finish_indent _ hblank rest hplain hcalled
  have hdrops : ((Collecting.ofLine region.current.line).run region.current.items).dropsLine rest =
      (Item.isForgotten rest || Item.vanishes false rest) := by
    rw [Collecting.dropsLine, hfresh.1, hfresh.2, Bool.true_and]
  rw [hdrops] at hiff
  rw [List.takeWhile_nil, Collecting.run_nil] at hopened
  rw [hopened]
  exact ⟨hiff, hstays⟩

end BlockRegion

end PromptScript
