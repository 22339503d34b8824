import Mathlib.Logic.Basic
import PromptScript.Condition
import PromptScript.Proofs.Text.Lines
import PromptScript.Proofs.Text.Search

/-!
# Conditions written and read back

The condition that a text states is stated by its own written form too, and the written form has
the ink of the text. The text is split at the first of the operators that occur in it, in the order
of the search, and where that operator occurs first.
-/

namespace PromptScript

/-- An operator has characters. -/
theorem Operator.text_ne_nil (operator : Operator) : operator.text ≠ [] := by
  cases operator <;> decide

/-- An operator holds no white space. -/
theorem Operator.text_solid (operator : Operator) :
    operator.text.all (!Text.isSpace ·) = true := by
  cases operator <;> decide

/-- Every operator is searched for. -/
theorem Operator.mem_searchOrder (operator : Operator) : operator ∈ searchOrder := by
  cases operator <;> decide

/-- Whether an operator is the one that a text is split at: it occurs in the text, and none of those
that come before it in the order of the search does. -/
def Operator.IsFirstIn (operator : Operator) (t : Text) : Prop :=
  operator.text <:+: t ∧ ∃ before after, [.ne, .le, .ge, .eq, .lt, .gt] = before ++ operator :: after ∧
    ∀ earlier ∈ before, ¬earlier.text <:+: t

/-- White space around a text makes no difference to the operators that occur in it. -/
theorem Operator.infix_trim_iff (operator : Operator) (t : Text) :
    operator.text <:+: Text.trim t ↔ operator.text <:+: t := by
  have hsame := Text.splitOnce?_trim operator.text_ne_nil operator.text_solid t
  rw [← not_iff_not, ← Text.splitOnce?_eq_none_iff operator.text_ne_nil,
    ← Text.splitOnce?_eq_none_iff operator.text_ne_nil,
    ← Option.map_eq_none_iff (f := Text.trimParts), hsame, Option.map_eq_none_iff]

namespace Condition

open Text (isBlank trim splitOnce? trimParts)

/-- White space around a text makes no difference to the comparison that it makes. -/
theorem compare?_trim (t : Text) (operator : Operator) :
    compare? (trim t) operator = compare? t operator := by
  have hparts (s : Text) : compare? s operator =
      ((splitOnce? operator.text s).map trimParts).map fun sides =>
        .comparison sides.1 operator sides.2 := by
    rw [compare?, Option.map_map]
    rfl
  rw [hparts, hparts, Text.splitOnce?_trim operator.text_ne_nil operator.text_solid]

/-- White space around a text makes no difference to the condition that it states. -/
theorem ofText_trim (t : Text) : ofText (trim t) = ofText t := by
  rw [ofText, ofText, Text.trim_trim]

/-- The condition that a text states, with the text itself searched. -/
theorem ofText_eq (t : Text) :
    ofText t = (Operator.searchOrder.findSome? (compare? t)).getD (.raw (trim t)) := by
  have hcompare : compare? (trim t) = compare? t := funext fun operator => compare?_trim t operator
  rw [ofText]
  simp only [hcompare]

/-- A text is not compared with an operator that is not found in it. -/
theorem compare?_eq_none_iff {t : Text} {operator : Operator} :
    compare? t operator = none ↔ splitOnce? operator.text t = none := by
  rw [compare?, Option.map_eq_none_iff]

/-- An operator searched before another does not occur in the other. -/
theorem splitOnce?_text_eq_none {before after : List Operator} {operator : Operator}
    (h : Operator.searchOrder = before ++ operator :: after) {earlier : Operator}
    (hmem : earlier ∈ before) : splitOnce? earlier.text operator.text = none := by
  have hpairs : Operator.searchOrder.Pairwise fun earlier operator =>
      splitOnce? earlier.text operator.text = none := by decide
  rw [h] at hpairs
  exact (List.pairwise_append.mp hpairs).2.2 earlier hmem operator List.mem_cons_self

/-- A text that states a comparison is its sides around the operator, and holds no operator that
is searched before. -/
theorem ofText_cases (t : Text) :
    (ofText t = .raw (trim t)) ∨
      ∃ before operator after a b, Operator.searchOrder = before ++ operator :: after ∧
        (∀ earlier ∈ before, splitOnce? earlier.text t = none) ∧
        t = a ++ operator.text ++ b ∧ splitOnce? operator.text a = none ∧
        ofText t = .comparison (trim a) operator (trim b) := by
  rw [ofText_eq]
  cases hfound : Operator.searchOrder.findSome? (compare? t) with
  | none => exact Or.inl rfl
  | some c =>
    right
    obtain ⟨before, operator, after, horder, hcompare, hearlier⟩ :=
      List.findSome?_eq_some_iff.mp hfound
    obtain ⟨⟨a, b⟩, hsplit, rfl⟩ := Option.map_eq_some_iff.mp hcompare
    obtain ⟨ht, ha⟩ := Text.splitOnce?_eq_some hsplit
    exact ⟨before, operator, after, a, b, horder,
      fun earlier hmem => compare?_eq_none_iff.mp (hearlier earlier hmem), ht, ha, rfl⟩

/-- A comparison is written with blanks around its operator. -/
theorem render_comparison (left : Text) (operator : Operator) (right : Text) :
    render (.comparison left operator right) =
      left ++ ' ' :: (operator.text ++ ' ' :: right) := by
  rw [render, List.append_assoc, List.cons_append]

/-- An operator that does not occur in the sides and in the operator between them does not occur
in the written comparison. -/
theorem splitOnce?_render {left right : Text} {operator searched : Operator}
    (hleft : splitOnce? searched.text left = none)
    (hoperator : splitOnce? searched.text operator.text = none)
    (hright : splitOnce? searched.text right = none) :
    splitOnce? searched.text (render (.comparison left operator right)) = none := by
  have hspace : ' ' ∉ searched.text := by cases searched <;> decide
  rw [render_comparison, Text.splitOnce?_append_cons searched.text_ne_nil hspace, hleft,
    Text.splitOnce?_append_cons searched.text_ne_nil hspace, hoperator, hright]
  rfl

/-- The written form of the condition that a text states, states that condition. -/
theorem ofText_render (t : Text) : ofText (ofText t).render = ofText t := by
  rcases ofText_cases t with hraw | ⟨before, operator, after, a, b, horder, hearlier, ht, ha, hof⟩
  · rw [hraw, render, ofText_trim, hraw]
  · have htrim {searched : Operator} {s : Text} (hs : splitOnce? searched.text s = none) :
        splitOnce? searched.text (trim s) = none := by
      obtain ⟨x, y, -, -, hsplit⟩ := Text.exists_trim s
      rw [hsplit] at hs
      exact Text.splitOnce?_eq_none_of_infix searched.text_ne_nil hs
    have hbefore : ∀ earlier ∈ before,
        compare? (render (.comparison (trim a) operator (trim b))) earlier = none := by
      intro earlier hmem
      have hnone := hearlier earlier hmem
      have hleft : splitOnce? earlier.text a = none := by
        rw [ht, List.append_assoc, ← List.nil_append (a ++ _), ← List.append_assoc] at hnone
        exact Text.splitOnce?_eq_none_of_infix earlier.text_ne_nil hnone
      have hright : splitOnce? earlier.text b = none := by
        rw [ht, ← List.append_nil (a ++ _ ++ b)] at hnone
        exact Text.splitOnce?_eq_none_of_infix earlier.text_ne_nil hnone
      exact compare?_eq_none_iff.mpr (splitOnce?_render (htrim hleft)
        (splitOnce?_text_eq_none horder hmem) (htrim hright))
    have hspace : ' ' ∉ operator.text := by cases operator <;> decide
    have hcompare : compare? (render (.comparison (trim a) operator (trim b))) operator =
        some (.comparison (trim a) operator (trim b)) := by
      have hblank : Text.isBlank [' '] = true := by decide
      have hleft : trim (trim a ++ [' ']) = trim a := by
        rw [Text.trim_append hblank, Text.trim_trim]
      have hright : trim (' ' :: trim b) = trim b := by
        rw [Text.trim_cons rfl, Text.trim_trim]
      rw [compare?, render_comparison, Text.splitOnce?_append_cons operator.text_ne_nil hspace, htrim ha,
        Text.splitOnce?_append_self operator.text_ne_nil]
      simp only [Option.map_some, hleft, hright]
    rw [hof, ofText_eq, List.findSome?_eq_some_iff.mpr ⟨before, operator, after, horder, hcompare,
      hbefore⟩, Option.getD_some]

/-- The written form of a condition has the ink of the text that states it. -/
theorem ink_render (t : Text) : Text.ink (ofText t).render = Text.ink t := by
  have hspace : Text.ink [' '] = [] := by decide
  rcases ofText_cases t with hraw | ⟨before, operator, after, a, b, -, -, ht, -, hof⟩
  · rw [hraw, render, Text.ink_trim]
  · rw [hof, render_comparison, ht]
    simp only [Text.ink_append, Text.ink_trim, Text.ink_cons ' ' (_ ++ _), Text.ink_cons ' ' (trim b),
      hspace, List.nil_append, List.append_assoc]

/-- The written form of a condition that a line states is a line. -/
theorem not_mem_render {t : Text} (h : '\n' ∉ t) : '\n' ∉ (ofText t).render := by
  rcases ofText_cases t with hraw | ⟨before, operator, after, a, b, -, -, ht, -, hof⟩
  · rw [hraw]
    exact fun hmem => h (Text.mem_of_mem_trim hmem)
  · rw [ht] at h
    simp only [List.mem_append, not_or] at h
    rw [hof, render_comparison]
    intro hmem
    rcases List.mem_append.mp hmem with hmem | hmem
    · exact h.1.1 (Text.mem_of_mem_trim hmem)
    · rcases List.mem_append.mp (List.mem_of_ne_of_mem (by decide) hmem) with hmem | hmem
      · exact h.1.2 hmem
      · exact h.2 (Text.mem_of_mem_trim (List.mem_of_ne_of_mem (by decide) hmem))

/-- A text is compared with an operator exactly if it holds the operator. -/
theorem compare?_eq_none_iff_infix {t : Text} {operator : Operator} :
    compare? t operator = none ↔ ¬operator.text <:+: t :=
  compare?_eq_none_iff.trans (Text.splitOnce?_eq_none_iff operator.text_ne_nil)

/-- A text states itself, trimmed, if it holds no operator. -/
theorem ofText_eq_raw_iff (t : Text) :
    ofText t = .raw (trim t) ↔ ∀ operator : Operator, ¬operator.text <:+: t := by
  have hnone : Operator.searchOrder.findSome? (compare? t) = none ↔
      ∀ operator : Operator, ¬operator.text <:+: t := by
    rw [List.findSome?_eq_none_iff]
    exact ⟨fun h operator => compare?_eq_none_iff_infix.mp (h operator operator.mem_searchOrder),
      fun h operator _ => compare?_eq_none_iff_infix.mpr (h operator)⟩
  rw [ofText_eq, ← hnone]
  cases hfound : Operator.searchOrder.findSome? (compare? t) with
  | none => simp
  | some c =>
    obtain ⟨operator, -, hcompare⟩ := List.exists_of_findSome?_eq_some hfound
    obtain ⟨sides, -, rfl⟩ := Option.map_eq_some_iff.mp hcompare
    simp

/-- A condition survives writing: its written form states it again. It is the trimmed text exactly if
no operator occurs in the text. Otherwise its operator is the one that the text is split at, no
occurrence of it is in the left side, and the trimmed text is the two sides around the operator with
white space between them or none. -/
theorem conditions_survive_writing (t : Text) :
    ofText (ofText t).render = ofText t ∧
    (ofText t = .raw (trim t) ↔ ∀ operator : Operator, ¬operator.text <:+: t) ∧
    (ofText t = .raw (trim t) ∨ ∃ left operator right,
      ofText t = .comparison left operator right ∧ operator.IsFirstIn t ∧
      ¬operator.text <:+: left ∧ trim left = left ∧ trim right = right ∧
      ∃ a b, isBlank a = true ∧ isBlank b = true ∧
        trim t = left ++ a ++ operator.text ++ b ++ right) := by
  refine ⟨ofText_render t, ofText_eq_raw_iff t, ?_⟩
  rcases ofText_cases (trim t) with hraw | ⟨before, operator, after, a, b, horder, hearlier, ht, ha, hof⟩
  · left
    rwa [ofText_trim, Text.trim_trim] at hraw
  · right
    have hoccurs : operator.text <:+: trim t := ⟨a, b, ht.symm⟩
    have habsent : ∀ earlier ∈ before, ¬earlier.text <:+: t := fun earlier hmem =>
      mt (earlier.infix_trim_iff t).mpr
        ((Text.splitOnce?_eq_none_iff earlier.text_ne_nil).mp (hearlier earlier hmem))
    have hfront : trim t = a ++ (operator.text ++ b) := by rw [ht, List.append_assoc]
    obtain ⟨x, hx, hleft⟩ := Text.exists_trim_of_front hfront
    obtain ⟨y, hy, hright⟩ := Text.exists_trim_of_end ht
    have hinside : trim a <:+: a := ⟨[], x, hleft.symm⟩
    refine ⟨trim a, operator, trim b, (ofText_trim t).symm.trans hof,
      ⟨(operator.infix_trim_iff t).mp hoccurs, before, after, horder, habsent⟩,
      fun hmem => (Text.splitOnce?_eq_none_iff operator.text_ne_nil).mp ha (hmem.trans hinside),
      Text.trim_trim a, Text.trim_trim b, x, y, hx, hy, ?_⟩
    calc trim t = a ++ operator.text ++ b := ht
      _ = trim a ++ x ++ operator.text ++ (y ++ trim b) := by rw [← hleft, ← hright]
      _ = trim a ++ x ++ operator.text ++ y ++ trim b := by rw [← List.append_assoc]

example : ofText " a > b !==c".toList = .comparison "a > b".toList .ne "=c".toList := by decide

end Condition

end PromptScript
