import PromptScript.Proofs.RoundTrip.Bounds
import PromptScript.Proofs.RoundTrip.Form

/-!
# Headings of blocks

The line that opens a block opens some block whatever it says. If that block has the arguments the
line was written for, then they are found where they were written, since a search that ends too
early or too late gives arguments with another amount of ink.
-/

namespace PromptScript

namespace Text

/-- A word that is found divides the ink of a text. -/
theorem length_ink_of_splitWord? {word t a b : Text} (h : splitWord? word t = some (a, b)) :
    (ink t).length = (ink a).length + (ink word).length + (ink b).length := by
  obtain ⟨parts, hparts, heq⟩ := Option.map_eq_some_iff.mp h
  cases heq
  rw [splitWordFrom?_eq_some hparts]
  simp [Nat.add_assoc]

/-- A search for a word after a text finds it, there or in the text. What comes before it has the
ink of the text only if the word is not in the text. -/
theorem exists_splitWord? (word : Text) (hword : word.all (!isSpace ·) = true) (hne : word ≠ [])
    (s : Text) {t : Text} (ht : opensBlank t = true) :
    ∃ a b, splitWord? word (s ++ ' ' :: (word ++ t)) = some (a, b) ∧
      ((ink a).length = (ink s).length → splitWord? word s = none ∧ a = trim s ∧ b = trim t) := by
  cases hsearch : splitWord? word s with
  | some parts =>
    obtain ⟨rest, hearly⟩ := splitWord?_append_of_some hword hne hsearch (word ++ t)
    refine ⟨parts.1, rest, hearly, fun hink => ?_⟩
    have hdivided := length_ink_of_splitWord? hsearch
    have hpos : 0 < (ink word).length := by
      cases word with
      | nil => exact absurd rfl hne
      | cons c word =>
        have hc : isSpace c = false := by simpa using (List.all_eq_true.mp hword) c List.mem_cons_self
        exact length_ink_pos List.mem_cons_self hc
    omega
  | none => exact ⟨_, _, splitWord?_append_blank hword hne hsearch ht, fun _ => ⟨rfl, rfl, rfl⟩⟩

end Text

namespace Block

/-- The line that opens a block. -/
def heading : Block → Text
  | conditional condition _ _ => "IF ".toList ++ condition.render ++ " THEN".toList
  | forEach item collection _ =>
    "FOR EACH ".toList ++ item ++ " IN ".toList ++ collection ++ " DO".toList
  | onError _ => "ON ERROR".toList

/-- Whether the arguments of a block are found again in the line that opens it. -/
def hasLegibleHeading : Block → Bool
  | conditional condition _ _ =>
    !Text.isBlank condition.render && (Text.splitWord? "THEN".toList condition.render).isNone
  | forEach item collection _ =>
    (!item.isEmpty && (Text.splitWord? "IN".toList item).isNone) &&
      (!collection.isEmpty && (Text.splitWord? "DO".toList collection).isNone)
  | onError _ => true

/-- The lines of the alternative of a block after the line that begins it. -/
def alternative (b : Block) : Text :=
  if b.otherwise.isEmpty then [] else "ELSE\n".toList ++ Text.unlines (Text.lines b.otherwise)

/-- A block is legible if its heading is and the lines of its texts read as text. -/
theorem isLegible_eq (b : Block) : b.isLegible = (b.hasLegibleHeading &&
    (Text.readsAsText true (Text.lines b.body) && Text.readsAsText true (Text.lines b.otherwise))) := by
  cases b with
  | conditional => rfl
  | forEach item collection body =>
    have hnone : Text.readsAsText true (Text.lines []) = true := rfl
    simp only [isLegible, hasLegibleHeading, Block.body, otherwise, hnone, Bool.and_true]
  | onError body =>
    have hnone : Text.readsAsText true (Text.lines []) = true := rfl
    simp only [isLegible, hasLegibleHeading, Block.body, otherwise, hnone, Bool.and_true, Bool.true_and]

/-- The text of a block that a script can say is trimmed. -/
theorem IsWellFormed.body_trim {b : Block} (h : b.IsWellFormed) : Text.trim b.body = b.body := by
  cases b with
  | conditional => exact h.2.1
  | forEach => exact h.2.2
  | onError => exact h

/-- The alternative of a block that a script can say is trimmed. -/
theorem IsWellFormed.otherwise_trim {b : Block} (h : b.IsWellFormed) :
    Text.trim b.otherwise = b.otherwise := by
  cases b with
  | conditional => exact h.2.2
  | forEach => rfl
  | onError => rfl

/-- A written block is its branches and its end. -/
theorem render_branches (b : Block) : b.render = branch b.heading b.body ++
    ((if b.otherwise.isEmpty then [] else branch "ELSE".toList b.otherwise) ++ "END\n\n".toList) := by
  cases b with
  | conditional => exact List.append_assoc _ _ _
  | forEach => rfl
  | onError => rfl

/-- A written block is its heading, the lines of its texts and its end. -/
theorem render_eq {b : Block} (h : b.IsWellFormed) : b.render = b.heading ++ ['\n'] ++
    (Text.unlines (Text.lines b.body) ++ (b.alternative ++ "END\n\n".toList)) := by
  have helse : branch "ELSE".toList b.otherwise = _ := branch_eq h.otherwise_trim _
  rw [render_branches, branch_eq h.body_trim, helse, List.append_assoc _ (Text.unlines _)]
  rfl

end Block

namespace Outline

variable {sections : List (SectionKind × Text)} {references : List FormReference}
  {blocks : List Block} {apiCalls : List ApiCall}

/-- What a conditional statement opens: the condition up to its keyword, or all its arguments. -/
theorem conditional_eq (o : Outline) (arguments : Text) :
    ∃ t rest, o.conditional arguments = o.openNew (.conditional (.ofText t)) rest ∧
      (t = arguments ∨ t ≠ [] ∧ ∃ after, Text.splitWord? "THEN".toList arguments = some (t, after)) := by
  unfold conditional
  split
  · rename_i c condition rest hsplit
    exact ⟨_, _, rfl, Or.inr ⟨List.cons_ne_nil c condition, rest, hsplit⟩⟩
  · exact ⟨_, _, rfl, Or.inl rfl⟩

/-- What a repetition opens: the item up to its keyword, and the collection up to its own or all
that follows. -/
theorem forEach_eq (o : Outline) {arguments item after : Text}
    (h : Text.splitWord? "IN".toList arguments = some (item, after)) :
    ∃ collection rest, o.forEach arguments = o.openNew (.forEach item collection) rest ∧
      (collection = after ∨ item ≠ [] ∧ collection ≠ [] ∧
        ∃ body, Text.splitWord? "DO".toList after = some (collection, body)) := by
  unfold forEach Draft.repetition?
  rw [h]
  simp only [Option.bind_eq_bind, Option.bind_some, Option.getD_some]
  cases hdo : Text.splitWord? "DO".toList after with
  | none => exact ⟨_, _, rfl, Or.inl rfl⟩
  | some parts =>
    obtain ⟨collection, body⟩ := parts
    by_cases hempty : item.isEmpty ∨ collection.isEmpty
    · simp only [Option.bind_some, if_pos hempty]
      exact ⟨_, _, rfl, Or.inl rfl⟩
    · simp only [Option.bind_some, if_neg hempty]
      simp only [List.isEmpty_iff, not_or] at hempty
      exact ⟨_, _, rfl, Or.inr ⟨hempty.1, hempty.2, body, rfl⟩⟩

/-- A block opened where nothing is open. -/
theorem openNew_idle (opening : Opening) (rest : Text) :
    (idle sections references blocks apiCalls).openNew opening rest =
      inBlock sections references blocks apiCalls ⟨opening, .ofLine rest, none⟩ :=
  rfl

end Outline

/-- A condition that its own line opens is not blank and has no keyword in it. -/
theorem hasLegibleHeading_of_conditional (o : Outline) (condition : Condition) (body other : Text) :
    ∃ opening rest, o.conditional (Text.trim (' ' :: (condition.render ++ " THEN".toList))) =
        o.openNew opening rest ∧
      (opening = .conditional condition →
        (Block.conditional condition body other).hasLegibleHeading = true) := by
  obtain ⟨g, rest, hopen, hfound⟩ :=
    o.conditional_eq (Text.trim (' ' :: (condition.render ++ " THEN".toList)))
  refine ⟨_, rest, hopen, fun heq => ?_⟩
  have hsame : Condition.ofText g = condition := Opening.conditional.inj heq
  have hink : (Text.ink g).length = (Text.ink condition.render).length := by
    rw [← hsame, Condition.ink_render]
  rcases hfound with rfl | ⟨hne, after, hsplit⟩
  · have hword : (Text.ink " THEN".toList).length = 4 := by decide
    simp only [Text.ink_trim, Text.ink_blank, Text.ink_append, List.length_append, hword] at hink
    omega
  · obtain ⟨a, b, hsearch, hnone⟩ := Text.exists_splitWord? "THEN".toList (by decide)
      (by decide) condition.render (t := []) rfl
    rw [Text.splitWord?_trim_blank (by decide) (by decide)] at hsplit
    obtain ⟨rfl, -⟩ := Prod.mk.inj (Option.some.inj (hsearch.symm.trans hsplit))
    obtain ⟨hthen, rfl, -⟩ := hnone hink
    have hblank : Text.isBlank condition.render = false := by
      rw [← Bool.not_eq_true, ← Text.trim_eq_nil_iff]
      exact hne
    rw [Block.hasLegibleHeading, hthen, hblank]
    rfl

/-- A repetition that its own line opens has arguments, and no keyword in them. -/
theorem hasLegibleHeading_of_forEach (o : Outline) (item collection body : Text) :
    ∃ opening rest, o.forEach (Text.trim (' ' :: (item ++ " IN ".toList ++ collection ++
        " DO".toList))) = o.openNew opening rest ∧
      (opening = .forEach item collection →
        (Block.forEach item collection body).hasLegibleHeading = true) := by
  have hline : item ++ " IN ".toList ++ collection ++ " DO".toList =
      item ++ ' ' :: ("IN".toList ++ ' ' :: (collection ++ ' ' :: ("DO".toList ++ []))) := by simp
  obtain ⟨first, after, hsearch, hnone⟩ := Text.exists_splitWord? "IN".toList (by decide)
    (by decide) item (t := ' ' :: (collection ++ ' ' :: ("DO".toList ++ []))) rfl
  rw [← hline, ← Text.splitWord?_trim_blank (by decide) (by decide)] at hsearch
  obtain ⟨second, rest, hopen, hfound⟩ := o.forEach_eq hsearch
  refine ⟨_, rest, hopen, fun heq => ?_⟩
  obtain ⟨rfl, rfl⟩ := Opening.forEach.inj heq
  obtain ⟨hin, -, rfl⟩ := hnone rfl
  rcases hfound with hall | ⟨hne, hnes, tail, hsplit⟩
  · have hword : (Text.ink ("DO".toList ++ [])).length = 2 := by decide
    have hink := congrArg (fun s => (Text.ink s).length) hall
    rw [Text.ink_trim, Text.ink_blank, Text.ink_append, Text.ink_blank, List.length_append, hword] at hink
    omega
  · obtain ⟨a, b, hlast, hdo⟩ := Text.exists_splitWord? "DO".toList (by decide)
      (by decide) second (t := []) rfl
    rw [Text.splitWord?_trim_blank (by decide) (by decide)] at hsplit
    obtain ⟨rfl, -⟩ := Prod.mk.inj (Option.some.inj (hlast.symm.trans hsplit))
    rw [Block.hasLegibleHeading, hin, (hdo rfl).1, List.isEmpty_eq_false_iff.mpr hne,
      List.isEmpty_eq_false_iff.mpr hnes]
    rfl

namespace Outline

variable {sections : List (SectionKind × Text)} {references : List FormReference}
  {blocks : List Block} {apiCalls : List ApiCall} {b : Block}

/-- The heading of a block opens some block. It opens the one that it was written for only if its
arguments are found again. -/
theorem passes_heading (h : b.IsWellFormed) :
    ∃ opening rest, (idle sections references blocks apiCalls).Passes true (b.heading ++ ['\n'])
        (inBlock sections references blocks apiCalls ⟨opening, .ofLine rest, none⟩) true ∧
      (opening = b.opening → b.hasLegibleHeading = true) := by
  cases b with
  | conditional condition body other =>
    obtain ⟨⟨t, ht, hcondition⟩, -⟩ := h
    obtain ⟨opening, rest, hopen, hfound⟩ := hasLegibleHeading_of_conditional
      (idle sections references blocks apiCalls) condition body other
    have hrender : '\n' ∉ condition.render := by
      rw [hcondition]
      exact Condition.not_mem_render ht
    have hline : '\n' ∉ ' ' :: (condition.render ++ " THEN".toList) := by simp [hrender]
    have hpasses := passes_one (o := idle sections references blocks apiCalls) rfl rfl rfl
      "IF".toList .ifWord .conditional (by decide) (by decide) (by decide) _ rfl hline
    rw [perform, hopen, openNew_idle] at hpasses
    exact ⟨opening, rest, hpasses, hfound⟩
  | forEach item collection body =>
    obtain ⟨⟨hitem, -⟩, ⟨hitems, -⟩, -⟩ := h
    obtain ⟨opening, rest, hopen, hfound⟩ := hasLegibleHeading_of_forEach
      (idle sections references blocks apiCalls) item collection body
    have hline : '\n' ∉ ' ' :: (item ++ " IN ".toList ++ collection ++ " DO".toList) := by
      simp [hitem, hitems]
    have hpasses := passes_two (o := idle sections references blocks apiCalls) rfl rfl rfl
      "FOR".toList "EACH".toList .forWord .forEach (by decide) (by decide) rfl (by decide) (by decide)
      _ rfl hline
    rw [perform, hopen, openNew_idle] at hpasses
    have hheading : (idle sections references blocks apiCalls).Passes true
        ("FOR EACH ".toList ++ item ++ " IN ".toList ++ collection ++ " DO".toList ++ ['\n'])
        (inBlock sections references blocks apiCalls ⟨opening, .ofLine rest, none⟩) true := by
      simpa using hpasses
    exact ⟨opening, rest, hheading, hfound⟩
  | onError body => exact ⟨.onError, [], passes_onError, fun _ => rfl⟩

/-- A heading whose arguments are found again opens its block. -/
theorem passes_legible_heading (h : b.IsWellFormed) (hlegible : b.hasLegibleHeading = true) :
    (idle sections references blocks apiCalls).Passes true (b.heading ++ ['\n'])
      (inBlock sections references blocks apiCalls ⟨b.opening, .empty, none⟩) true := by
  cases b with
  | conditional condition body other =>
    obtain ⟨⟨t, ht, hcondition⟩, -⟩ := h
    simp only [Block.hasLegibleHeading, Bool.and_eq_true, Bool.not_eq_true',
      Option.isNone_iff_eq_none] at hlegible
    exact passes_if ht hcondition hlegible.1 hlegible.2
  | forEach item collection body =>
    obtain ⟨⟨hitem, htrim⟩, ⟨hitems, htrims⟩, -⟩ := h
    simp only [Block.hasLegibleHeading, Bool.and_eq_true, Bool.not_eq_true',
      Option.isNone_iff_eq_none, List.isEmpty_eq_false_iff] at hlegible
    obtain ⟨⟨hne, hin⟩, hnes, hdo⟩ := hlegible
    exact passes_forEach hitem hitems htrim htrims hne hnes hin hdo
  | onError body => exact passes_onError

end Outline

end PromptScript
