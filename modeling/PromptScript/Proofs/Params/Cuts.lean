import PromptScript.Params
import PromptScript.Proofs.Text.Search

/-!
# Cuts outside quotes and brackets

A separator counts where no quotes and no brackets are open. A text is cut around the first
separator that counts, and its parts are what such cuts leave in a row. So a text that ends outside
quotes and brackets has the same parts whatever comes after its separator, and white space around a
text stays with the parts at its ends.
-/

namespace PromptScript.Params

open Text (isBlank isSpace trim)

namespace Nesting

/-- The nesting past a text. -/
def past (n : Nesting) (t : Text) : Nesting :=
  t.foldl step n

@[simp] theorem past_nil (n : Nesting) : n.past [] = n := rfl

@[simp] theorem past_cons (n : Nesting) (c : Char) (t : Text) :
    n.past (c :: t) = (n.step c).past t := rfl

/-- The nesting past two texts in a row is that past the one and then past the other. -/
@[simp] theorem past_append (n : Nesting) (s t : Text) : n.past (s ++ t) = (n.past s).past t :=
  List.foldl_append

/-- A backslash counts inside quotes only, and so does what comes after it. -/
def IsSettled (n : Nesting) : Prop :=
  n.escaped = true → n.quoted = true

/-- Outside quotes no backslash counts. -/
theorem isSettled_top : top.IsSettled :=
  fun h => absurd h Bool.false_ne_true

/-- A character keeps a nesting settled, as a backslash counts for the next one only inside quotes.
-/
theorem IsSettled.step {n : Nesting} (h : n.IsSettled) (c : Char) : (n.step c).IsSettled := by
  intro hescaped
  unfold Nesting.step at hescaped ⊢
  grind [IsSettled]

/-- A text keeps a nesting settled. -/
theorem IsSettled.past {n : Nesting} (h : n.IsSettled) (t : Text) : (n.past t).IsSettled := by
  induction t generalizing n with
  | nil => exact h
  | cons c t ih => exact ih (h.step c)

/-- Outside quotes and brackets nothing else is left of what came before. -/
theorem IsSettled.eq_top {n : Nesting} (h : n.IsSettled) (htop : n.isTop = true) : n = top := by
  obtain ⟨quoted, escaped, depth⟩ := n
  simp only [isTop, Bool.and_eq_true, Bool.not_eq_true', beq_iff_eq] at htop
  obtain ⟨rfl, rfl⟩ := htop
  have hescaped : escaped = false := Bool.eq_false_iff.mpr fun he => absurd (h he) Bool.false_ne_true
  rw [hescaped]
  rfl

/-- Outside quotes and brackets there is one nesting only. -/
theorem past_eq_top {t : Text} (h : (top.past t).isTop = true) : top.past t = top :=
  (isSettled_top.past t).eq_top h

/-- The characters that open or close quotes and brackets. -/
def marks : List Char :=
  ['"', '{', '[', '(', '}', ']', ')']

/-- Only the marks lead out of the top level. -/
theorem step_top {c : Char} (h : c ∉ marks) : top.step c = top := by
  simp only [marks, List.mem_cons, List.not_mem_nil, or_false, not_or] at h
  simp [step, top, h]

/-- White space opens nothing. -/
theorem past_top_of_isBlank {t : Text} (h : isBlank t = true) : top.past t = top := by
  induction t with
  | nil => rfl
  | cons c t ih =>
    obtain ⟨hc, ht⟩ := by simpa only [isBlank, List.all_cons, Bool.and_eq_true] using h
    have hmarks : marks.any isSpace = false := by decide
    have hplain : c ∉ marks := fun hmem => List.any_eq_false.mp hmarks c hmem hc
    rw [past_cons, step_top hplain, ih ht]

end Nesting

variable {separator : Char} {n : Nesting}

/-- Whether no separator of a text counts, with the nesting before the text given. -/
def IsUncut (separator : Char) (n : Nesting) (t : Text) : Prop :=
  ∀ lead rest, t = lead ++ separator :: rest → (n.past lead).isTop = false

/-- No separator counts where there is none. -/
theorem isUncut_nil (separator : Char) (n : Nesting) : IsUncut separator n [] := by
  intro lead rest h
  simp at h

/-- No separator counts if the first character is none that does and none counts past it. -/
theorem isUncut_cons {c : Char} {t : Text} : IsUncut separator n (c :: t) ↔
    (c = separator → n.isTop = false) ∧ IsUncut separator (n.step c) t := by
  constructor
  · intro h
    refine ⟨?_, fun lead rest ht => h (c :: lead) rest (by rw [ht, List.cons_append])⟩
    rintro rfl
    exact h [] t rfl
  · rintro ⟨hfirst, hrest⟩ lead rest ht
    cases lead with
    | nil => exact hfirst (List.cons.inj ht).1
    | cons x lead =>
      obtain ⟨rfl, htail⟩ := List.cons.inj ht
      exact hrest lead rest htail

/-- A text without a cut does not begin with a separator that counts. -/
theorem IsUncut.head {c : Char} {t : Text} (h : IsUncut separator n (c :: t)) :
    ¬(c = separator ∧ n.isTop = true) := by
  rintro ⟨hc, htop⟩
  rw [(isUncut_cons.mp h).1 hc] at htop
  cases htop

/-- No separator counts past the first character if none does at all. -/
theorem IsUncut.tail {c : Char} {t : Text} (h : IsUncut separator n (c :: t)) :
    IsUncut separator (n.step c) t :=
  (isUncut_cons.mp h).2

/-- No separator counts in two texts in a row if none does in either, each where it stands. -/
theorem isUncut_append {s t : Text} : IsUncut separator n (s ++ t) ↔
    IsUncut separator n s ∧ IsUncut separator (n.past s) t := by
  induction s generalizing n with
  | nil => simp [isUncut_nil]
  | cons c s ih => rw [List.cons_append, isUncut_cons, isUncut_cons, ih, and_assoc, Nesting.past_cons]

/-- A character that does not occur cannot count. -/
theorem isUncut_of_not_mem {t : Text} (h : separator ∉ t) : IsUncut separator n t := by
  rintro lead rest rfl
  simp at h

/-- White space holds no separator that is not white space itself. -/
theorem isUncut_of_isBlank (hseparator : isSpace separator = false) {t : Text}
    (h : isBlank t = true) : IsUncut separator n t :=
  isUncut_of_not_mem (Text.not_mem_of_isBlank h hseparator)

/-- A text in which no separator counts is one part. -/
theorem partsFrom_of_isUncut {t : Text} (h : IsUncut separator n t) :
    partsFrom separator n t = (t, []) := by
  induction t generalizing n with
  | nil => rfl
  | cons c t ih =>
    rw [partsFrom, if_neg h.head, ih h.tail]

/-- The first separator that counts ends the first part. -/
theorem partsFrom_append_cons {part : Text} (h : IsUncut separator n part)
    (htop : (n.past part).isTop = true) (rest : Text) :
    partsFrom separator n (part ++ separator :: rest) = (part, splitTop separator rest) := by
  induction part generalizing n with
  | nil =>
    have hcut : separator = separator ∧ n.isTop = true := ⟨rfl, htop⟩
    rw [List.nil_append, partsFrom, if_pos hcut, splitTop]
  | cons c part ih =>
    rw [List.cons_append, partsFrom, if_neg h.head, ih h.tail htop]

/-- A text has no separator that counts, or else a first one. -/
theorem isUncut_or_exists (separator : Char) (n : Nesting) (t : Text) :
    IsUncut separator n t ∨ ∃ part rest, t = part ++ separator :: rest ∧
      IsUncut separator n part ∧ (n.past part).isTop = true := by
  induction t generalizing n with
  | nil => exact Or.inl (isUncut_nil separator n)
  | cons c t ih =>
    by_cases hcut : c = separator ∧ n.isTop = true
    · obtain ⟨rfl, htop⟩ := hcut
      exact Or.inr ⟨[], t, rfl, isUncut_nil c n, htop⟩
    · have hfirst : c = separator → n.isTop = false := fun hc =>
        Bool.eq_false_iff.mpr fun htop => hcut ⟨hc, htop⟩
      rcases ih (n.step c) with huncut | ⟨part, rest, rfl, huncut, htop⟩
      · exact Or.inl (isUncut_cons.mpr ⟨hfirst, huncut⟩)
      · exact Or.inr ⟨c :: part, rest, rfl, isUncut_cons.mpr ⟨hfirst, huncut⟩, htop⟩

/-- A fact about texts, shown cut by cut. -/
theorem induction_on_cuts (separator : Char) {P : Text → Prop}
    (last : ∀ t, IsUncut separator .top t → P t)
    (more : ∀ part rest, IsUncut separator .top part → (Nesting.top.past part).isTop = true →
      P rest → P (part ++ separator :: rest)) (t : Text) : P t := by
  induction hlength : t.length using Nat.strongRecOn generalizing t with
  | _ length ih =>
    rcases isUncut_or_exists separator .top t with huncut | ⟨part, rest, rfl, huncut, htop⟩
    · exact last t huncut
    · refine more part rest huncut htop (ih rest.length ?_ rest rfl)
      simp only [List.length_append, List.length_cons] at hlength
      omega

/-- A text in which no separator counts is not cut. -/
theorem cutTop?_of_isUncut {t : Text} (h : IsUncut separator .top t) : cutTop? separator t = none := by
  rw [cutTop?, partsFrom_of_isUncut h]

/-- The cut is at the first separator that counts. -/
theorem cutTop?_append_cons {part : Text} (h : IsUncut separator .top part)
    (htop : (Nesting.top.past part).isTop = true) (rest : Text) :
    cutTop? separator (part ++ separator :: rest) = some (part, rest) := by
  rw [cutTop?, partsFrom_append_cons h htop, splitTop]
  simp

/-- A text is cut around the first separator that counts. -/
theorem cutTop?_eq_some_iff {t part rest : Text} : cutTop? separator t = some (part, rest) ↔
    t = part ++ separator :: rest ∧ IsUncut separator .top part ∧
      (Nesting.top.past part).isTop = true := by
  constructor
  · intro h
    rcases isUncut_or_exists separator .top t with huncut | ⟨found, after, rfl, huncut, htop⟩
    · rw [cutTop?_of_isUncut huncut] at h
      cases h
    · rw [cutTop?_append_cons huncut htop] at h
      cases h
      exact ⟨rfl, huncut, htop⟩
  · rintro ⟨rfl, huncut, htop⟩
    exact cutTop?_append_cons huncut htop rest

/-- A text in which no separator counts is its only part. -/
theorem splitTop_of_isUncut {t : Text} (h : IsUncut separator .top t) : splitTop separator t = [t] := by
  rw [splitTop, partsFrom_of_isUncut h]

/-- Past a separator that counts the parts are those of the text after it. -/
theorem splitTop_append_cons {part : Text} (h : IsUncut separator .top part)
    (htop : (Nesting.top.past part).isTop = true) (rest : Text) :
    splitTop separator (part ++ separator :: rest) = part :: splitTop separator rest := by
  rw [splitTop, partsFrom_append_cons h htop]

/-- The parts of a text are those of its cuts in a row. -/
theorem splitTop_eq (t : Text) : splitTop separator t =
    match cutTop? separator t with
    | none => [t]
    | some parts => parts.1 :: splitTop separator parts.2 := by
  rcases isUncut_or_exists separator .top t with huncut | ⟨part, rest, rfl, huncut, htop⟩
  · rw [splitTop_of_isUncut huncut, cutTop?_of_isUncut huncut]
  · rw [splitTop_append_cons huncut htop, cutTop?_append_cons huncut htop]

/-- Past a text that ends outside quotes and brackets, a separator divides the parts. -/
theorem splitTop_append (hseparator : Nesting.top.step separator = .top) {a : Text}
    (h : (Nesting.top.past a).isTop = true) (b : Text) :
    splitTop separator (a ++ separator :: b) = splitTop separator a ++ splitTop separator b := by
  induction a using induction_on_cuts separator with
  | last a huncut => rw [splitTop_append_cons huncut h, splitTop_of_isUncut huncut, List.singleton_append]
  | more part rest huncut htop ih =>
    rw [Nesting.past_append, Nesting.past_cons, Nesting.past_eq_top htop, hseparator] at h
    rw [List.append_assoc, List.cons_append, splitTop_append_cons huncut htop,
      splitTop_append_cons huncut htop, ih h, List.cons_append]

section

variable (hseparator : isSpace separator = false)
include hseparator

/-- White space in front makes no difference to which separators count. -/
theorem isUncut_append_left {space : Text} (hspace : isBlank space = true) {t : Text} :
    IsUncut separator .top (space ++ t) ↔ IsUncut separator .top t := by
  rw [isUncut_append, Nesting.past_top_of_isBlank hspace]
  exact and_iff_right (isUncut_of_isBlank hseparator hspace)

/-- White space behind makes no difference to which separators count. -/
theorem isUncut_append_right {space : Text} (hspace : isBlank space = true) {t : Text} :
    IsUncut separator n (t ++ space) ↔ IsUncut separator n t := by
  rw [isUncut_append]
  exact and_iff_left (isUncut_of_isBlank hseparator hspace)

/-- White space before a text stays with its first part, and after it with what is left. -/
theorem cutTop?_append_append {a b : Text} (ha : isBlank a = true) (hb : isBlank b = true) (t : Text) :
    cutTop? separator (a ++ t ++ b) =
      (cutTop? separator t).map fun parts => (a ++ parts.1, parts.2 ++ b) := by
  rcases isUncut_or_exists separator .top t with huncut | ⟨part, rest, rfl, huncut, htop⟩
  · have hall : IsUncut separator .top (a ++ t ++ b) :=
      (isUncut_append_right hseparator hb).mpr ((isUncut_append_left hseparator ha).mpr huncut)
    rw [cutTop?_of_isUncut huncut, cutTop?_of_isUncut hall]
    rfl
  · have hlead : IsUncut separator .top (a ++ part) :=
      (isUncut_append_left hseparator ha).mpr huncut
    have hends : (Nesting.top.past (a ++ part)).isTop = true := by
      rw [Nesting.past_append, Nesting.past_top_of_isBlank ha, htop]
    have hsplit : a ++ (part ++ separator :: rest) ++ b = a ++ part ++ separator :: (rest ++ b) := by
      simp
    rw [hsplit, cutTop?_append_cons hlead hends, cutTop?_append_cons huncut htop]
    rfl

/-- White space around a text makes no difference to how it is cut, once trimmed. -/
theorem cutTop?_trim (t : Text) : (cutTop? separator (trim t)).map Text.trimParts =
    (cutTop? separator t).map Text.trimParts := by
  obtain ⟨a, b, ha, hb, heq⟩ := Text.exists_trim t
  conv => rhs; rw [heq, cutTop?_append_append hseparator ha hb]
  cases cutTop? separator (trim t) with
  | none => rfl
  | some parts =>
    simp only [Option.map_some, Text.trimParts, Text.trim_append_left ha, Text.trim_append hb]

/-- White space in front is trimmed with the first part. -/
theorem map_trim_splitTop_append_left {space : Text} (hspace : isBlank space = true) (t : Text) :
    (splitTop separator (space ++ t)).map trim = (splitTop separator t).map trim := by
  have hcut := cutTop?_append_append hseparator hspace (b := []) rfl t
  rw [List.append_nil] at hcut
  rw [splitTop_eq, splitTop_eq t, hcut]
  cases cutTop? separator t with
  | none => simp only [Option.map_none, List.map_singleton, Text.trim_append_left hspace]
  | some parts =>
    simp only [Option.map_some, List.append_nil, List.map_cons, Text.trim_append_left hspace]

/-- White space behind is trimmed with the last part. -/
theorem map_trim_splitTop_append_right {space : Text} (hspace : isBlank space = true) (t : Text) :
    (splitTop separator (t ++ space)).map trim = (splitTop separator t).map trim := by
  induction t using induction_on_cuts separator with
  | last t huncut =>
    rw [splitTop_of_isUncut huncut,
      splitTop_of_isUncut ((isUncut_append_right hseparator hspace).mpr huncut), List.map_singleton,
      List.map_singleton, Text.trim_append hspace]
  | more part rest huncut htop ih =>
    rw [List.append_assoc, List.cons_append, splitTop_append_cons huncut htop,
      splitTop_append_cons huncut htop, List.map_cons, List.map_cons, ih]

/-- White space around a text makes no difference to its parts, once trimmed. -/
theorem map_trim_splitTop_trim (t : Text) :
    (splitTop separator (trim t)).map trim = (splitTop separator t).map trim := by
  obtain ⟨a, b, ha, hb, heq⟩ := Text.exists_trim t
  conv => rhs; rw [heq]
  rw [map_trim_splitTop_append_right hseparator hb, map_trim_splitTop_append_left hseparator ha]

end

end PromptScript.Params
