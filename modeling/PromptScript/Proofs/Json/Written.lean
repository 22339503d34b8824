import PromptScript.Proofs.Json.Depth
import PromptScript.Proofs.Json.Numerals
import PromptScript.Proofs.Json.Reading

/-!
# Printed values are JSON texts on one line

The compact form of every value is a JSON text: it is read as a tree that writes the value, with
its members in their order. This needs no bound on the depth of the value and holds of every
number. No character of the text comes before U+0020, so it holds no line break.
-/

namespace PromptScript

/-- Text without the control characters below U+0020. -/
def Text.isPrintable (t : Text) : Bool :=
  t.all fun c => 32 ≤ c.toNat

namespace Text

/-- Two texts in a row are printable if both are. -/
@[simp] theorem isPrintable_append (s t : Text) :
    isPrintable (s ++ t) = (isPrintable s && isPrintable t) :=
  List.all_append

@[simp] theorem isPrintable_cons (c : Char) (t : Text) :
    isPrintable (c :: t) = (decide (32 ≤ c.toNat) && isPrintable t) :=
  List.all_cons

@[simp] theorem isPrintable_nil : isPrintable [] = true := rfl

/-- Printable text has no line break. -/
theorem not_mem_newline_of_isPrintable {t : Text} (h : isPrintable t = true) : '\n' ∉ t :=
  fun hmem => absurd (List.all_eq_true.mp h _ hmem) (by decide)

/-- Digits are printable. -/
theorem isPrintable_of_isDigit {c : Char} (h : c.isDigit = true) : 32 ≤ c.toNat := by
  have hlow : 48 ≤ c.toNat := by
    simp only [Char.isDigit, Bool.and_eq_true, decide_eq_true_eq] at h
    exact UInt32.le_iff_toNat_le.mp h.1
  omega

end Text

namespace Json

open Text (isPrintable)

/-- What is written for a character has no control characters, even if that is one. -/
theorem isPrintable_escape (c : Char) : isPrintable (escape c) = true := by
  have hescaped : ∀ n < 32, isPrintable
      ['\\', 'u', '0', '0', hexDigit (n / 16), hexDigit (n % 16)] = true := by decide
  unfold escape
  repeat' split
  all_goals first | rfl | (exact hescaped _ ‹_›) | skip
  simp_all [isPrintable]

/-- A quoted text is printable, whatever its characters are. -/
theorem isPrintable_quote (t : Text) : isPrintable (quote t) = true := by
  have hescaped : isPrintable (t.flatMap escape) = true := by
    rw [isPrintable, List.all_flatMap]
    exact List.all_eq_true.mpr fun c _ => isPrintable_escape c
  simp [quote, hescaped]

/-- Numbers are printable. -/
theorem isPrintable_render (n : Number) : isPrintable n.render = true := by
  obtain ⟨numeral, hformed, htext⟩ := n.exists_numeral
  rw [← htext]
  refine List.all_eq_true.mpr fun c hc => decide_eq_true ?_
  rcases hformed.mem_text hc with hdigit | hmark
  · exact Text.isPrintable_of_isDigit hdigit
  · have hmarks : ['-', '.', 'e'].all (32 ≤ ·.toNat) = true := by decide
    simpa using List.all_eq_true.mp hmarks c hmark

mutual

/-- The compact form of a value holds no control characters. -/
theorem isPrintable_compact : (j : Json) → isPrintable (compact j) = true
  | .null => by decide
  | .bool b => by cases b <;> decide
  | .number n => isPrintable_render n
  | .string t => isPrintable_quote t
  | .array items => by simp [compact, isPrintable_compactItems items]
  | .object members => by simp [compact, isPrintable_compactMembers members]

/-- The compact form of items holds no control characters. -/
theorem isPrintable_compactItems : (items : List Json) → isPrintable (compactItems items) = true
  | [] => rfl
  | [j] => isPrintable_compact j
  | j :: k :: items => by
    simp [compactItems, isPrintable_compact j, isPrintable_compactItems (k :: items)]

/-- The compact form of members holds no control characters. -/
theorem isPrintable_compactMembers :
    (members : List (Text × Json)) → isPrintable (compactMembers members) = true
  | [] => rfl
  | [(name, j)] => by simp [compactMembers, isPrintable_quote, isPrintable_compact j]
  | (name, j) :: k :: members => by
    simp [compactMembers, isPrintable_quote, isPrintable_compact j,
      isPrintable_compactMembers (k :: members)]

end

/-- A tree writes a value: its strings are escaped, its numerals are those of the numbers, and its
items and members are those of the value in their order. -/
inductive Writes : Json → Tree → Prop
  | null : Writes .null .null
  | bool (b : Bool) : Writes (.bool b) (.bool b)
  | number {n : Number} {numeral : Numeral} (h : numeral.text = n.render) :
      Writes (.number n) (.number numeral)
  | string (t : Text) : Writes (.string t) (.string (t.flatMap escape))
  | array {items : List Json} {trees : List Tree} (h : List.Forall₂ Writes items trees) :
      Writes (.array items) (.array trees)
  | object {members : List (Text × Json)} {trees : List (Text × Tree)}
      (h : List.Forall₂ (WritesMember Writes) members trees) :
      Writes (.object members) (.object trees)

/-- The members with a name are written with the values that the name has. -/
theorem forall₂_membersNamed {members : List (Text × Json)} {trees : List (Text × Tree)}
    (h : List.Forall₂ (WritesMember Writes) members trees) (name : Text) :
    List.Forall₂ Writes ((members.filter fun m => m.1 = name).map (·.2))
      (membersNamed unescape? name trees) := by
  induction h with
  | nil => exact .nil
  | cons hfirst _ ih =>
    obtain ⟨own, hvalue⟩ := hfirst
    rw [membersNamed] at ih ⊢
    by_cases hname : own = name
    · simpa [unescape?_escape, hname, hvalue] using ih
    · simpa [unescape?_escape, hname] using ih

/-- A number is read as a numeral that is written for it. -/
theorem scans_number (n : Number) : Scans (Writes (.number n)) n.render := by
  obtain ⟨numeral, hformed, htext⟩ := n.exists_numeral
  obtain ⟨c, t, hcons, hc⟩ := hformed.exists_cons
  have hread : ∀ rest, EndsNumeral rest → ∃ found,
      readNumeral? (c :: t ++ rest) = some (found, rest) ∧ found = numeral := by
    intro rest hrest
    rw [← hcons]
    exact ⟨numeral, hformed.readNumeral? hrest, rfl⟩
  have hnumber := Scans.number hc hread
  rw [← hcons, htext] at hnumber
  refine hnumber.imp ?_
  rintro tree ⟨found, rfl, rfl⟩
  exact .number htext

mutual

/-- The compact form of a value is read as a tree that writes the value. -/
theorem scans_compact : (j : Json) → Scans (Writes j) (compact j)
  | .null => Scans.null.imp (by rintro _ rfl; exact .null)
  | .bool b => (Scans.bool b).imp (by rintro _ rfl; exact .bool b)
  | .number n => scans_number n
  | .string t => (Scans.string t).imp (by rintro _ rfl; exact .string t)
  | .array items => by
    have harray := Scans.array (R := Writes) isGap_nil (scans_compactItems items)
    rw [List.append_nil, ← compactItems_eq] at harray
    refine harray.imp ?_
    rintro tree ⟨trees, rfl, h⟩
    exact .array h
  | .object members => by
    have hobject := Scans.object (R := Writes) isGap_nil isGap_nil (scans_compactMembers members)
    rw [List.append_nil, ← compactMembers_eq] at hobject
    refine hobject.imp ?_
    rintro tree ⟨trees, rfl, h⟩
    exact .object h

/-- The compact forms of items are read as trees that write them. -/
theorem scans_compactItems : (items : List Json) → ∀ j ∈ items, Scans (Writes j) (compact j)
  | [] => by simp
  | j :: items => List.forall_mem_cons.mpr ⟨scans_compact j, scans_compactItems items⟩

/-- The compact forms of the values of members are read as trees that write them. -/
theorem scans_compactMembers :
    (members : List (Text × Json)) → ∀ m ∈ members, Scans (Writes m.2) (compact m.2)
  | [] => by simp
  | (_, j) :: members => List.forall_mem_cons.mpr ⟨scans_compact j, scans_compactMembers members⟩

end

/-- A text that is taken whole is a JSON text. -/
theorem Scans.ofText? {P : Tree → Prop} {t : Text} (h : Scans P t) :
    ∃ tree, Tree.ofText? t = some tree ∧ P tree := by
  obtain ⟨tree, hread, hP⟩ := h (2 * t.length + 2) [] (by omega) (by simp [EndsNumeral])
  rw [List.append_nil] at hread
  refine ⟨tree, ?_, hP⟩
  rw [Tree.ofText?, hread]
  rfl

/-- The compact form of a value is a JSON text that writes the value. -/
theorem exists_tree_compact (j : Json) :
    ∃ tree, Tree.ofText? (compact j) = some tree ∧ Writes j tree :=
  (scans_compact j).ofText?

end Json

end PromptScript
