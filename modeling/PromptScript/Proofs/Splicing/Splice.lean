import Mathlib.Data.List.Forall2
import PromptScript.Proofs.Splicing.Block

/-!
# Splicing

References are spliced out of the texts around them. The sections and blocks of a script are those
of its regions, and each text has exactly the ink of what is kept of its region. That is all its
loose text, except for what stands on a line that ends in the recovered body of a reference: it is
dropped when a line of references alone comes before the next text that ends its line.
-/

namespace PromptScript

open Item (blockRegions forgets keptText looseText sectionBody sectionRegions)

/-- Lists with the same images have related entries if equal images relate them. -/
theorem forall₂_of_map_eq {α β γ : Type} {f : α → γ} {g : β → γ} {R : α → β → Prop}
    {as : List α} {bs : List β} (h : as.map f = bs.map g) (hR : ∀ a b, f a = g b → R a b) :
    List.Forall₂ R as bs := by
  have heq : List.Forall₂ Eq (as.map f) (bs.map g) := List.forall₂_eq_eq_eq ▸ h
  rw [List.forall₂_map_left_iff, List.forall₂_map_right_iff] at heq
  exact heq.imp hR

namespace Parsed

variable (source : Text)

/-- The sections of a script have the kinds of its regions and the texts collected from them. -/
theorem sections_ofText :
    (sectionRegions (Item.ofTokens (Token.ofText source))).map
        (fun region => (region.1, sectionBody region.2)) =
      (ofText source).document.sections.map fun s => (s.kind, s.body) := by
  have hclose := Draft.sections_close (Draft.isReading_ofText source) .empty
    (Item.allHold_ofTokens (Token.holds_ofText source))
  have hsections : (ofText source).document.sections.map (fun s => (s.kind, s.body)) = _ :=
    congrArg Outline.sections (outline_ofText source)
  rw [hsections]
  exact hclose.symm

/-- The blocks of a script have the openings of its regions and the texts collected from them. -/
theorem blocks_ofText :
    (blockRegions (Item.ofTokens (Token.ofText source))).map BlockRegion.parts =
      (ofText source).document.blocks.map (·.block.parts) := by
  have hclose := Outline.blocks_close
    (Item.isKnown_of_grammar (Token.grammar_ofText source)) (o := .empty) rfl
  have hblocks : (ofText source).document.blocks.map (·.block) = _ :=
    congrArg Outline.blocks (outline_ofText source)
  have hparts := congrArg (List.map Block.parts) hblocks
  rw [List.map_map] at hparts
  rw [hclose] at hparts
  exact hparts.symm

end Parsed

/-- Each section has the ink of what is kept of its region, which is that of all its loose text
exactly if none is forgotten. So has each branch of each block, after the rest of the line that
begins it. -/
theorem texts_spliced (source : Text) :
    List.Forall₂ (fun region (s : Section) => s.kind = region.1 ∧
        Text.ink s.body = Text.ink (keptText region.2) ∧
        (Text.ink s.body = Text.ink (looseText region.2) ↔ forgets region.2 = false))
      (sectionRegions (Item.ofTokens (Token.ofText source)))
      (Parsed.ofText source).document.sections ∧
    List.Forall₂ (fun region (b : BlockStatement) => b.block.opening = region.opening ∧
        List.Forall₂ (fun branch text =>
            Text.ink text = Text.ink branch.line ++ Text.ink (keptText branch.items) ∧
            (Text.ink text = Text.ink branch.line ++ Text.ink (looseText branch.items) ↔
              forgets branch.items = false))
          region.branches b.block.branches)
      (blockRegions (Item.ofTokens (Token.ofText source)))
      (Parsed.ofText source).document.blocks := by
  refine ⟨forall₂_of_map_eq (Parsed.sections_ofText source) fun region s h => ?_,
    forall₂_of_map_eq (Parsed.blocks_ofText source) fun region b h => ?_⟩
  · obtain ⟨hkind, hbody⟩ := Prod.mk.inj h
    have hink := Item.ink_sectionBody region.2
    rw [hbody] at hink
    refine ⟨hkind.symm, hink, ?_⟩
    rw [hink]
    exact Item.ink_keptText_iff region.2
  · obtain ⟨hopening, hbranches⟩ := Prod.mk.inj h
    refine ⟨hopening.symm, ?_⟩
    rw [← hbranches, List.forall₂_map_right_iff, List.forall₂_same]
    refine fun branch _ => ⟨branch.ink_text, ?_⟩
    rw [branch.ink_text, List.append_cancel_left_eq]
    exact Item.ink_keptText_iff branch.items

/-- A line of text that ends in a recovered body is lost where the next line holds nothing but a
reference. -/
theorem texts_spliced_fails :
    ¬∀ source : Text,
      (Parsed.ofText source).document.sections.map (fun s => Text.ink s.body) =
        (sectionRegions (Item.ofTokens (Token.ofText source))).map
          fun region => Text.ink (looseText region.2) :=
  fun h => absurd (h "TASK: a @x\x7b b\n@y\n".toList) (by decide +kernel)

end PromptScript
