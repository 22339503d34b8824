import PromptScript.Proofs.Text.Trim

/-!
# Lines and ink

A text is lines, each ended by a line break. The ink of a text is what is left of it without white
space; trimming keeps the ink, and only blank texts have none.
-/

namespace PromptScript.Text

/-- The characters of a text that are not white space. -/
def ink (t : Text) : Text :=
  t.filter (!isSpace ·)

@[simp] theorem ink_nil : ink [] = [] := rfl

/-- The ink of two texts in a row is that of the one and then that of the other. -/
@[simp] theorem ink_append (s t : Text) : ink (s ++ t) = ink s ++ ink t :=
  List.filter_append s t

/-- The ink of a text is that of its first character and then that of the others. -/
theorem ink_cons (c : Char) (t : Text) : ink (c :: t) = ink [c] ++ ink t :=
  ink_append [c] t

/-- A blank in front adds no ink. -/
theorem ink_blank (t : Text) : ink (' ' :: t) = ink t := by
  have hblank : ink [' '] = [] := by decide
  rw [ink_cons, hblank, List.nil_append]

/-- Only blank texts have no ink. -/
theorem ink_eq_nil_iff {t : Text} : ink t = [] ↔ isBlank t = true := by
  simp [ink, isBlank, List.filter_eq_nil_iff]

/-- White space has no ink. -/
@[simp] theorem ink_of_isBlank {t : Text} (h : isBlank t = true) : ink t = [] :=
  ink_eq_nil_iff.mpr h

/-- Trimming keeps the ink. -/
@[simp] theorem ink_trim (t : Text) : ink (trim t) = ink t := by
  obtain ⟨a, b, ha, hb, heq⟩ := exists_trim t
  conv => rhs; rw [heq]
  simp [ink_of_isBlank ha, ink_of_isBlank hb]

/-- A text with a character that is not white space has ink. -/
theorem length_ink_pos {t : Text} {c : Char} (hc : c ∈ t) (hspace : isSpace c = false) :
    0 < (ink t).length :=
  List.length_pos_of_mem (List.mem_filter.mpr ⟨hc, by simp [hspace]⟩)

/-- The lines of a text without their line breaks; a line break at the end begins no line. -/
def lines : Text → List Text
  | [] => []
  | c :: t =>
    if c = '\n' then [] :: lines t
    else
      match lines t with
      | [] => [[c]]
      | l :: ls => (c :: l) :: ls

/-- Lines with a line break after each. -/
def unlines (ls : List Text) : Text :=
  ls.flatMap (· ++ ['\n'])

@[simp] theorem unlines_nil : unlines [] = [] := rfl

@[simp] theorem unlines_cons (l : Text) (ls : List Text) :
    unlines (l :: ls) = l ++ '\n' :: unlines ls := by
  simp [unlines]

/-- Lines are written one after the other. -/
@[simp] theorem unlines_append (ls ms : List Text) :
    unlines (ls ++ ms) = unlines ls ++ unlines ms :=
  List.flatMap_append

section

attribute [local simp] lines

/-- Only the empty text has no lines. -/
theorem lines_eq_nil_iff {t : Text} : lines t = [] ↔ t = [] := by
  cases t with
  | nil => simp
  | cons c t =>
    by_cases hc : c = '\n'
    · simp [hc]
    · cases hl : lines t <;> simp [hc, hl]

end

/-- The lines of a text that does not end in a line break make it up, with one more at the end. -/
theorem unlines_lines {t : Text} (hne : t ≠ []) (hend : t.getLast? ≠ some '\n') :
    unlines (lines t) = t ++ ['\n'] := by
  induction t with
  | nil => exact absurd rfl hne
  | cons c t ih =>
    cases t with
    | nil =>
      have hc : c ≠ '\n' := by simpa using hend
      simp [lines, hc]
    | cons d t =>
      rw [List.getLast?_cons_cons] at hend
      have ht := ih (List.cons_ne_nil d t) hend
      rw [lines]
      split
      · rename_i hc
        rw [unlines_cons, ht, hc]
        rfl
      · cases hl : lines (d :: t) with
        | nil => exact absurd (lines_eq_nil_iff.mp hl) (List.cons_ne_nil d t)
        | cons l ls =>
          rw [hl] at ht
          simp only [unlines_cons, List.cons_append] at ht ⊢
          rw [ht]

/-- A line holds no line break. -/
theorem not_mem_of_mem_lines {t l : Text} (h : l ∈ lines t) : '\n' ∉ l := by
  induction t generalizing l with
  | nil => cases h
  | cons c t ih =>
    rw [lines] at h
    split at h
    · rcases List.mem_cons.mp h with rfl | h
      · simp
      · exact ih h
    · rename_i hc
      split at h
      · rw [List.mem_singleton.mp h]
        simpa using Ne.symm hc
      · rename_i m ms hm
        rcases List.mem_cons.mp h with rfl | h
        · have hmem : '\n' ∉ m := ih (by rw [hm]; exact List.mem_cons_self)
          simpa [Ne.symm hc] using hmem
        · exact ih (by rw [hm]; exact List.mem_cons_of_mem m h)

/-- A trimmed text does not end in a line break. -/
theorem getLast?_ne_of_trim {t : Text} (h : trim t = t) : t.getLast? ≠ some '\n' := by
  intro hlast
  have hend := (trim_eq_self_iff.mp h).2
  rw [hlast] at hend
  cases hend

/-- The first line of a text begins as the text does, unless it is empty. -/
theorem head?_of_lines {t l : Text} {ls : List Text} (h : lines t = l :: ls) :
    l.head? = none ∨ l.head? = t.head? := by
  cases t with
  | nil => cases h
  | cons c t =>
    rw [lines] at h
    split at h
    · cases h
      exact Or.inl rfl
    · split at h
      · cases h
        exact Or.inr rfl
      · cases h
        exact Or.inr rfl

/-- The lines of a text with a blank written before it. -/
def spaced (t : Text) : List Text :=
  match lines t with
  | [] => [[' ']]
  | l :: ls => (' ' :: l) :: ls

/-- The lines of a trimmed text with a blank before it make it up. -/
theorem unlines_spaced {t : Text} (h : trim t = t) : unlines (spaced t) = ' ' :: t ++ ['\n'] := by
  rw [spaced]
  cases hlines : lines t with
  | nil =>
    rw [lines_eq_nil_iff.mp hlines]
    rfl
  | cons l ls =>
    have hne : t ≠ [] := fun heq => by
      rw [heq] at hlines
      cases hlines
    have hjoin := unlines_lines hne (getLast?_ne_of_trim h)
    rw [hlines, unlines_cons] at hjoin
    rw [unlines_cons, List.cons_append, hjoin, List.cons_append]

/-- A line of a spaced text holds no line break. -/
theorem not_mem_of_mem_spaced {t l : Text} (h : l ∈ spaced t) : '\n' ∉ l := by
  rw [spaced] at h
  cases hlines : lines t with
  | nil =>
    rw [hlines] at h
    rw [List.mem_singleton.mp h]
    decide
  | cons m ms =>
    rw [hlines] at h
    rcases List.mem_cons.mp h with rfl | h
    · have hm : '\n' ∉ m := not_mem_of_mem_lines (t := t) (by rw [hlines]; exact List.mem_cons_self)
      simpa using hm
    · exact not_mem_of_mem_lines (t := t) (by rw [hlines]; exact List.mem_cons_of_mem m h)

/-- A spaced text has a line, if only that of the blank. -/
theorem spaced_ne_nil (t : Text) : spaced t ≠ [] := by
  rw [spaced]
  split <;> simp

/-- Whether every line break of a text comes after ink on its line; `blank` says that there was
none on the first line so far. -/
def breaksInked (blank : Bool) : Text → Bool
  | [] => true
  | c :: t =>
    if c = '\n' then !blank && breaksInked true t else breaksInked (blank && isSpace c) t

section

attribute [local simp] breaksInked

/-- What passes after a blank start of a line passes after ink too. -/
theorem breaksInked_false {blank : Bool} {t : Text} (h : breaksInked blank t = true) :
    breaksInked false t = true := by
  induction t generalizing blank with
  | nil => rfl
  | cons c t ih =>
    by_cases hc : c = '\n'
    · simp only [breaksInked, if_pos hc, Bool.and_eq_true] at h
      simp [hc, h.2]
    · simp only [breaksInked, if_neg hc] at h
      simp [hc, ih h]

end

/-- The line breaks of a first part come after ink where those of the whole do. -/
theorem breaksInked_left {blank : Bool} {s t : Text} (h : breaksInked blank (s ++ t) = true) :
    breaksInked blank s = true := by
  induction s generalizing blank with
  | nil => rfl
  | cons c s ih =>
    rw [List.cons_append, breaksInked] at h
    rw [breaksInked]
    split at h
    · rename_i hc
      obtain ⟨hblank, h⟩ := Bool.and_eq_true_iff.mp h
      rw [if_pos hc, hblank, ih h]
      rfl
    · rename_i hc
      rw [if_neg hc, ih h]

/-- The line breaks of a second part come after ink where those of the whole do, though its own
first line may have none. -/
theorem breaksInked_right {blank : Bool} {s t : Text} (h : breaksInked blank (s ++ t) = true) :
    breaksInked false t = true := by
  induction s generalizing blank with
  | nil => exact breaksInked_false h
  | cons c s ih =>
    rw [List.cons_append, breaksInked] at h
    split at h
    · exact ih (Bool.and_eq_true_iff.mp h).2
    · exact ih h

/-- Within a line there is nothing to check. -/
theorem breaksInked_append {l : Text} (hl : '\n' ∉ l) (blank : Bool) (t : Text) :
    breaksInked blank (l ++ t) = breaksInked (blank && isBlank l) t := by
  induction l generalizing blank with
  | nil => simp [isBlank]
  | cons c l ih =>
    have hc := (List.ne_of_not_mem_cons hl).symm
    rw [List.cons_append, breaksInked, if_neg hc, ih (List.not_mem_of_not_mem_cons hl), isBlank,
      isBlank, List.all_cons, Bool.and_assoc]

/-- Lines that are not blank, and a last line. -/
theorem breaksInked_unlines {ls : List Text} (h : ∀ l ∈ ls, '\n' ∉ l ∧ isBlank l = false)
    {last : Text} (hlast : '\n' ∉ last) : breaksInked true (unlines ls ++ last) = true := by
  induction ls with
  | nil =>
    have hnil := breaksInked_append hlast true []
    rw [List.append_nil] at hnil
    rw [unlines_nil, List.nil_append, hnil]
    rfl
  | cons l ls ih =>
    obtain ⟨hl, hblank⟩ := h l List.mem_cons_self
    rw [unlines_cons, List.append_assoc, List.cons_append, breaksInked_append hl, hblank,
      breaksInked, if_pos rfl, ih fun m hm => h m (List.mem_cons_of_mem l hm)]
    rfl

/-- The lines of a text that does not end in white space are not blank if its line breaks come
after ink. -/
theorem isBlank_of_breaksInked {blank : Bool} {t l : Text} {ls : List Text}
    (h : breaksInked blank t = true) (hend : t.getLast?.any isSpace = false)
    (hlines : lines t = l :: ls) :
    (blank = true → isBlank l = false) ∧ ∀ m ∈ ls, isBlank m = false := by
  induction t generalizing blank l ls with
  | nil => cases hlines
  | cons c t ih =>
    have hrest : t.getLast?.any isSpace = false := by
      cases t with
      | nil => rfl
      | cons d t => rwa [List.getLast?_cons_cons] at hend
    rw [breaksInked] at h
    rw [lines] at hlines
    split at h
    · rename_i hc
      rw [if_pos hc] at hlines
      cases hlines
      obtain ⟨hblank, h⟩ := Bool.and_eq_true_iff.mp h
      refine ⟨fun heq => absurd hblank (by simp [heq]), fun m hm => ?_⟩
      cases hnext : lines t with
      | nil =>
        rw [hnext] at hm
        cases hm
      | cons k ks =>
        obtain ⟨hk, hks⟩ := ih h hrest hnext
        rw [hnext] at hm
        rcases List.mem_cons.mp hm with rfl | hm
        · exact hk rfl
        · exact hks m hm
    · rename_i hc
      rw [if_neg hc] at hlines
      cases hnext : lines t with
      | nil =>
        rw [hnext] at hlines
        cases hlines
        rw [lines_eq_nil_iff.mp hnext] at hend
        have hspace : isSpace c = false := hend
        exact ⟨fun _ => by simp [isBlank, hspace], by simp⟩
      | cons k ks =>
        rw [hnext] at hlines
        cases hlines
        obtain ⟨hk, hks⟩ := ih h hrest hnext
        refine ⟨fun hblank => ?_, hks⟩
        cases hspace : isSpace c with
        | false => simp [isBlank, hspace]
        | true =>
          have hline := hk (by rw [hblank, hspace]; rfl)
          simpa [isBlank, hspace] using hline

/-- White space, lines that are not blank and a last line leave no blank line when trimmed. -/
theorem isBlank_lines_trim {lead last : Text} {ls : List Text} (hlead : isBlank lead = true)
    (h : ∀ l ∈ ls, '\n' ∉ l ∧ isBlank l = false) (hlast : '\n' ∉ last) :
    ∀ l ∈ lines (trim (lead ++ unlines ls ++ last)), isBlank l = false := by
  have htrim : trim (lead ++ unlines ls ++ last) = trim (unlines ls ++ last) := by
    rw [List.append_assoc, trim_append_left hlead]
  obtain ⟨a, b, -, -, heq⟩ := exists_trim (unlines ls ++ last)
  have hall := breaksInked_unlines h hlast
  rw [heq] at hall
  have hmid := breaksInked_right (breaksInked_left hall)
  have hends := trim_eq_self_iff.mp (trim_trim (unlines ls ++ last))
  rw [htrim]
  intro l hl
  cases hlines : lines (trim (unlines ls ++ last)) with
  | nil =>
    rw [hlines] at hl
    cases hl
  | cons k ks =>
    have hinked : breaksInked true (trim (unlines ls ++ last)) = true := by
      cases htext : trim (unlines ls ++ last) with
      | nil => rfl
      | cons c t =>
        rw [htext] at hmid hends
        have hc : isSpace c = false := hends.1
        have hline : c ≠ '\n' := by
          rintro rfl
          cases hc
        rw [breaksInked, if_neg hline] at hmid ⊢
        rw [hc]
        exact hmid
    obtain ⟨hk, hks⟩ := isBlank_of_breaksInked hinked hends.2 hlines
    rw [hlines] at hl
    rcases List.mem_cons.mp hl with rfl | hl
    · exact hk rfl
    · exact hks l hl

end PromptScript.Text
