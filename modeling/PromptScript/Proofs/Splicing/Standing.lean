import Mathlib.Data.List.TakeWhile
import PromptScript.Proofs.Parsing.Problems
import PromptScript.Proofs.Splicing.Region

/-!
# Scripts cut inside a block

Where a script is cut inside a block, the items before the cut decide what is open there: no
section, and one block, whose region goes on with the items after the cut up to the one that ends
it. The regions of all other sections and blocks lie on one side of the cut, and what is wrong with
the items after it depends on the open block alone.
-/

namespace PromptScript

open Document (Problem)

namespace Item

variable {item : Item} {items : List Item} {variant : BlockVariant} {alternative : Bool}

/-- The standing past items in a row. -/
def pastAll (s : Standing) (items : List Item) : Standing :=
  items.foldl past s

@[simp] theorem pastAll_nil (s : Standing) : pastAll s [] = s := rfl

@[simp] theorem pastAll_cons (s : Standing) (item : Item) (items : List Item) :
    pastAll s (item :: items) = pastAll (item.past s) items := rfl

/-- The standing past items in a row is that past the one part and then past the other. -/
theorem pastAll_append (s : Standing) (items more : List Item) :
    pastAll s (items ++ more) = pastAll (pastAll s items) more :=
  List.foldl_append

/-- What an item does to the standing is what its statement does. -/
theorem past_statement (s : Standing) (keyword : Token) (rest : Option Token) :
    (statement keyword rest).past s =
      match (statement keyword rest).word? with
      | some word => s.past word
      | none => s :=
  rfl

/-- IF opens a condition, whatever its condition is. -/
theorem variant_conditionalOpening (arguments : Text) :
    (conditionalOpening arguments).1.variant = .conditional := by
  unfold conditionalOpening
  split <;> rfl

/-- FOR EACH opens a repetition, whatever it goes through. -/
theorem variant_forEachOpening (arguments : Text) :
    (forEachOpening arguments).1.variant = .forEach := by
  unfold forEachOpening
  split <;> rfl

/-- Outside blocks an opening begins one, and nothing else does. -/
theorem past_none (item : Item) : item.past none = item.opening?.map fun x => (x.1.variant, false) := by
  cases item with
  | statement keyword rest =>
    rw [past_statement, opening?]
    cases (statement keyword rest).word? with
    | none => rfl
    | some word =>
      cases word with
      | conditional => rw [Option.map_some, variant_conditionalOpening]; rfl
      | forEach => rw [Option.map_some, variant_forEachOpening]; rfl
      | onError | otherwise | finish | callApi => rfl
  | header | text | reference | stray => rfl

/-- Inside a block an item that does not end it changes the standing only where it begins the
alternative of a condition. -/
theorem past_some (hstay : item.endsBlock = false) :
    item.past (some (variant, alternative)) =
      some (variant, alternative || (variant == .conditional && item.isOtherwise)) := by
  cases item with
  | header t kind => cases hstay
  | statement keyword rest =>
    rw [past_statement, isOtherwise]
    cases hword : (statement keyword rest).word? with
    | none => simp
    | some word =>
      cases word with
      | finish => simp [endsBlock, hword] at hstay
      | otherwise => cases variant <;> cases alternative <;> rfl
      | conditional | forEach | onError | callApi => simp [Standing.past]
  | text | reference | stray => simp [past, isOtherwise, word?]

/-- Past items that do not end it, a block is open still, and its alternative has begun if one of
them is an ELSE. -/
theorem pastAll_some (hstay : ∀ item ∈ items, item.endsBlock = false) :
    pastAll (some (variant, alternative)) items =
      some (variant, alternative || (variant == .conditional && items.any isOtherwise)) := by
  induction items generalizing alternative with
  | nil => simp
  | cons item items ih =>
    obtain ⟨hitem, hitems⟩ := List.forall_mem_cons.mp hstay
    rw [pastAll_cons, past_some hitem, ih hitems, List.any_cons, Bool.or_assoc,
      ← Bool.and_or_distrib_left]

/-- Nothing is open past what ends a block. -/
theorem past_of_endsBlock (h : item.endsBlock = true) (s : Standing) : item.past s = none := by
  cases item with
  | header t kind => rfl
  | statement keyword rest =>
    have hword : (statement keyword rest).word? = some .finish := by simpa [endsBlock] using h
    rw [past_statement, hword]
    rfl
  | text | reference | stray => cases h

end Item

/-- Items lead an outline to the standing past them. -/
theorem Outline.standing_applyAll (o : Outline) (items : List Item) :
    (o.applyAll items).standing = Item.pastAll o.standing items := by
  induction items generalizing o with
  | nil => rfl
  | cons item items ih => rw [applyAll_cons, ih, standing_apply, Item.pastAll_cons]

namespace Item

variable {item : Item} {items : List Item} {variant : BlockVariant} {alternative : Bool}

/-- Where a block was opened, the section before it has ended. -/
theorem exists_endsSection_of_past (h : (pastAll none items).isSome = true) :
    ∃ item ∈ items, item.endsSection = true := by
  induction items with
  | nil => cases h
  | cons item items ih =>
    cases hends : item.endsSection with
    | true => exact ⟨item, List.mem_cons_self, hends⟩
    | false =>
      have hnone : item.past none = none := by
        cases item with
        | header | statement => cases hends
        | text | reference | stray => rfl
      rw [pastAll_cons, hnone] at h
      obtain ⟨found, hmem, hfound⟩ := ih h
      exact ⟨found, List.mem_cons_of_mem item hmem, hfound⟩

/-- No section goes on from before a cut inside a block. -/
theorem sectionRegions_append {s : Standing} (h : (pastAll s items).isSome = true)
    (more : List Item) :
    sectionRegions (items ++ more) = sectionRegions items ++ sectionRegions more := by
  induction items generalizing s with
  | nil => rfl
  | cons item items ih =>
    rw [pastAll_cons] at h
    cases item with
    | header t kind =>
      obtain ⟨found, hmem, hfound⟩ := exists_endsSection_of_past h
      have hinside : (items ++ more).takeWhile (!·.endsSection) =
          items.takeWhile (!·.endsSection) := by
        rw [List.takeWhile_append, if_neg]
        intro hlength
        have hall := List.takeWhile_eq_self_iff.mp
          ((List.takeWhile_prefix (!·.endsSection)).eq_of_length hlength) found hmem
        simp [hfound] at hall
      rw [List.cons_append, sectionRegions, sectionRegions, hinside, ih h, List.cons_append]
    | statement | text | reference | stray => exact ih h

/-- What is wrong with the items after a cut depends on the standing there. -/
theorem exists_allProblems_append (s : Standing) (items : List Item) :
    ∃ front, ∀ more, allProblems s (items ++ more) = front ++ allProblems (pastAll s items) more := by
  induction items generalizing s with
  | nil => exact ⟨[], fun _ => rfl⟩
  | cons item items ih =>
    obtain ⟨front, hfront⟩ := ih (item.past s)
    refine ⟨item.problems s ++ front, fun more => ?_⟩
    rw [List.cons_append, allProblems, hfront, pastAll_cons, List.append_assoc]

end Item

/-- A region with more items. -/
def BlockRegion.append (region : BlockRegion) (more : List Item) : BlockRegion :=
  { region with items := region.items ++ more }

namespace Item

variable {items : List Item} {variant : BlockVariant} {alternative : Bool}

/-- The block that is open at a cut goes on with the items after it, and all blocks before it are
finished. -/
theorem blockRegions_append (h : pastAll none items = some (variant, alternative)) :
    ∃ (finished : List BlockRegion) (region : BlockRegion), region.opening.variant = variant ∧
      (variant == .conditional && region.items.any isOtherwise) = alternative ∧
      region.items <:+ items ∧
      ∀ more, blockRegions (items ++ more) = finished ++
        region.append (more.takeWhile (!·.endsBlock)) ::
          blockRegions (more.dropWhile (!·.endsBlock)) := by
  induction items using blockRegions.induct with
  | case1 => cases h
  | case2 item rest opening line hopening ih =>
    rw [pastAll_cons, past_none, hopening, Option.map_some] at h
    cases hafter : rest.dropWhile (!·.endsBlock) with
    | nil =>
      have hall := List.dropWhile_eq_nil_iff.mp hafter
      have hstay : ∀ i ∈ rest, i.endsBlock = false := fun i hi => by simpa using hall i hi
      rw [pastAll_some hstay, Bool.false_or, Option.some.injEq, Prod.mk.injEq] at h
      obtain ⟨rfl, rfl⟩ := h
      refine ⟨[], ⟨opening, line, rest⟩, rfl, rfl, List.suffix_cons item rest, fun more => ?_⟩
      rw [List.cons_append, blockRegions, hopening, List.takeWhile_append_of_pos hall,
        List.dropWhile_append_of_pos hall, List.nil_append, BlockRegion.append]
    | cons last tail =>
      have hlast : last.endsBlock = true := by
        have hhead := List.head?_dropWhile_not (!·.endsBlock) rest
        rw [hafter] at hhead
        simpa using hhead
      have hpast : pastAll none (last :: tail) = some (variant, alternative) := by
        rw [← rest.takeWhile_append_dropWhile (p := (!·.endsBlock)), pastAll_append, hafter,
          pastAll_cons, past_of_endsBlock hlast] at h
        rwa [pastAll_cons, past_of_endsBlock hlast]
      rw [hafter] at ih
      obtain ⟨finished, region, hvariant, halternative, hsuffix, hregions⟩ := ih hpast
      have htail : last :: tail <:+ rest := hafter ▸ List.dropWhile_suffix _
      refine ⟨⟨opening, line, rest.takeWhile (!·.endsBlock)⟩ :: finished, region, hvariant,
        halternative, hsuffix.trans (htail.trans (List.suffix_cons item rest)), fun more => ?_⟩
      have hne : ¬(rest.takeWhile (!·.endsBlock)).length = rest.length := by
        intro hlength
        have hlengths := congrArg List.length
          (rest.takeWhile_append_dropWhile (p := (!·.endsBlock)))
        rw [hafter, List.length_append, List.length_cons] at hlengths
        omega
      rw [List.cons_append, blockRegions, hopening, List.takeWhile_append, if_neg hne,
        List.dropWhile_append, hafter]
      exact congrArg _ (hregions more)
  | case3 item rest hopening ih =>
    rw [pastAll_cons, past_none, hopening] at h
    obtain ⟨finished, region, hvariant, halternative, hsuffix, hregions⟩ := ih h
    refine ⟨finished, region, hvariant, halternative, hsuffix.trans (List.suffix_cons item rest),
      fun more => ?_⟩
    rw [List.cons_append, blockRegions, hopening]
    exact hregions more

end Item

end PromptScript
