import PromptScript.Text.Blank

/-!
# Trimming

Trimming takes white space from the two ends of a text and nothing else, so white space around a
text makes no difference and a trimmed text is one with no white space at its ends.
-/

namespace PromptScript.Text

/-- Blank texts in a row are blank exactly if each is. -/
theorem isBlank_append (s t : Text) : isBlank (s ++ t) = (isBlank s && isBlank t) :=
  List.all_append

/-- White space holds no other character. -/
theorem not_mem_of_isBlank {c : Char} {t : Text} (h : isBlank t = true) (hc : isSpace c = false) :
    c ∉ t := by
  intro hmem
  have hspace := List.all_eq_true.mp h c hmem
  rw [hc] at hspace
  cases hspace

/-- Blank is what is blank from the other end. -/
theorem isBlank_reverse (t : Text) : isBlank t.reverse = isBlank t :=
  List.all_reverse

/-- White space in front is trimmed with what else stands at the start. -/
theorem trimStart_append {s : Text} (h : isBlank s = true) (t : Text) :
    trimStart (s ++ t) = trimStart t :=
  List.dropWhile_append_of_pos (List.all_eq_true.mp h)

/-- White space behind is trimmed with what else stands at the end. -/
theorem trimEnd_append {s : Text} (h : isBlank s = true) (t : Text) :
    trimEnd (t ++ s) = trimEnd t := by
  rw [← isBlank_reverse] at h
  rw [trimEnd, List.reverse_append, List.dropWhile_append_of_pos (List.all_eq_true.mp h), trimEnd]

/-- Trimming at the start leaves a text that does not begin with white space. -/
theorem head?_trimStart (t : Text) : (trimStart t).head?.any isSpace = false := by
  induction t with
  | nil => rfl
  | cons c t ih =>
    rw [trimStart, List.dropWhile_cons]
    split
    · exact ih
    · rename_i hc
      simpa using hc

/-- A text that does not begin with white space has nothing to trim there. -/
theorem trimStart_eq_self {t : Text} (h : t.head?.any isSpace = false) : trimStart t = t := by
  cases t with
  | nil => rfl
  | cons c t => exact List.dropWhile_cons_of_neg (by simpa using h)

/-- A text that does not end in white space has nothing to trim there. -/
theorem trimEnd_eq_self {t : Text} (h : t.getLast?.any isSpace = false) : trimEnd t = t := by
  rw [← List.head?_reverse] at h
  rw [trimEnd, ← trimStart, trimStart_eq_self h, List.reverse_reverse]

/-- A text with its end trimmed does not end in white space. -/
theorem getLast?_trimEnd (t : Text) : (trimEnd t).getLast?.any isSpace = false := by
  rw [trimEnd, List.getLast?_reverse]
  exact head?_trimStart _

/-- A text is white space, what trimming leaves, and white space. -/
theorem exists_trimStart (t : Text) : ∃ a, isBlank a = true ∧ t = a ++ trimStart t :=
  ⟨t.takeWhile isSpace, List.all_takeWhile, List.takeWhile_append_dropWhile.symm⟩

/-- Trimming the end takes white space and nothing else. -/
theorem exists_trimEnd (t : Text) : ∃ b, isBlank b = true ∧ t = trimEnd t ++ b := by
  obtain ⟨a, ha, heq⟩ := exists_trimStart t.reverse
  refine ⟨a.reverse, by rw [isBlank_reverse, ha], ?_⟩
  have hrev := congrArg List.reverse heq
  rwa [List.reverse_reverse, List.reverse_append] at hrev

/-- Trimming takes white space from both ends and nothing else. -/
theorem exists_trim (t : Text) :
    ∃ a b, isBlank a = true ∧ isBlank b = true ∧ t = a ++ trim t ++ b := by
  obtain ⟨a, ha, hstart⟩ := exists_trimStart t
  obtain ⟨b, hb, hend⟩ := exists_trimEnd (trimStart t)
  refine ⟨a, b, ha, hb, ?_⟩
  rw [trim, List.append_assoc, ← hend, ← hstart]

/-- Trimming adds no character. -/
theorem mem_of_mem_trim {c : Char} {t : Text} (h : c ∈ trim t) : c ∈ t := by
  obtain ⟨a, b, -, -, heq⟩ := exists_trim t
  rw [heq]
  exact List.mem_append_left b (List.mem_append_right a h)

/-- Trimming at the end keeps the first character, if anything is left. -/
theorem head?_trimEnd {t : Text} (h : trimEnd t ≠ []) : (trimEnd t).head? = t.head? := by
  obtain ⟨b, -, heq⟩ := exists_trimEnd t
  cases hend : trimEnd t with
  | nil => exact absurd hend h
  | cons c rest =>
    rw [heq, hend]
    rfl

/-- A trimmed text does not begin with white space. -/
theorem head?_trim (t : Text) : (trim t).head?.any isSpace = false := by
  by_cases h : trim t = []
  · rw [h]
    rfl
  · rw [trim, head?_trimEnd h]
    exact head?_trimStart t

/-- A trimmed text does not end in white space. -/
theorem getLast?_trim (t : Text) : (trim t).getLast?.any isSpace = false :=
  getLast?_trimEnd _

/-- A text without white space at its ends is trimmed, and no other is. -/
theorem trim_eq_self_iff {t : Text} :
    trim t = t ↔ t.head?.any isSpace = false ∧ t.getLast?.any isSpace = false := by
  constructor
  · intro h
    rw [← h]
    exact ⟨head?_trim t, getLast?_trim t⟩
  · rintro ⟨hstart, hend⟩
    rw [trim, trimStart_eq_self hstart, trimEnd_eq_self hend]

/-- A part at the front of a trimmed text has white space at its end only. -/
theorem exists_trim_of_front {s a rest : Text} (h : trim s = a ++ rest) :
    ∃ b, isBlank b = true ∧ a = trim a ++ b := by
  have hhead : a.head?.any isSpace = false := by
    cases a with
    | nil => rfl
    | cons c a =>
      have hfirst := head?_trim s
      rwa [h, List.cons_append] at hfirst
  obtain ⟨b, hb, heq⟩ := exists_trimEnd a
  exact ⟨b, hb, by rwa [trim, trimStart_eq_self hhead]⟩

/-- A part at the end of a trimmed text has white space at its front only. -/
theorem exists_trim_of_end {s b rest : Text} (h : trim s = rest ++ b) :
    ∃ a, isBlank a = true ∧ b = a ++ trim b := by
  obtain ⟨a, ha, heq⟩ := exists_trimStart b
  have hlast : (trimStart b).getLast?.any isSpace = false := by
    cases hstart : trimStart b with
    | nil => rfl
    | cons c inside =>
      have hend := getLast?_trim s
      rw [h, heq, hstart, List.getLast?_append, List.getLast?_append, List.getLast?_cons,
        Option.some_or, Option.some_or, ← List.getLast?_cons] at hend
      exact hend
  exact ⟨a, ha, by rwa [trim, trimEnd_eq_self hlast]⟩

/-- A text between two marks is trimmed. -/
theorem trim_between {c d : Char} (hc : isSpace c = false) (hd : isSpace d = false) (t : Text) :
    trim (c :: (t ++ [d])) = c :: (t ++ [d]) := by
  refine trim_eq_self_iff.mpr ⟨hc, ?_⟩
  rw [← List.cons_append, List.getLast?_concat]
  exact hd

/-- A trimmed text is trimmed. -/
@[simp] theorem trim_trim (t : Text) : trim (trim t) = trim t :=
  trim_eq_self_iff.mpr ⟨head?_trim t, getLast?_trim t⟩

/-- Only blank texts trim to nothing. -/
theorem trim_eq_nil_iff {t : Text} : trim t = [] ↔ isBlank t = true := by
  constructor
  · intro h
    obtain ⟨a, b, ha, hb, heq⟩ := exists_trim t
    rw [heq, h, List.append_nil, isBlank_append, ha, hb]
    rfl
  · intro h
    rw [trim, (trimStart_eq_nil_iff t).mpr h]
    rfl

/-- White space around a text makes no difference to what trimming leaves. -/
theorem trim_append_append {a b : Text} (ha : isBlank a = true) (hb : isBlank b = true) (t : Text) :
    trim (a ++ t ++ b) = trim t := by
  by_cases ht : isBlank t = true
  · have hall : isBlank (a ++ t ++ b) = true := by
      rw [isBlank_append, isBlank_append, ha, ht, hb]
      rfl
    rw [trim_eq_nil_iff.mpr ht, trim_eq_nil_iff.mpr hall]
  · obtain ⟨x, y, hx, hy, heq⟩ := exists_trim t
    have hne : trim t ≠ [] := mt trim_eq_nil_iff.mp ht
    have hhead : (trim t ++ (y ++ b)).head? = (trim t).head? := by
      cases htrim : trim t with
      | nil => exact absurd htrim hne
      | cons c rest => rfl
    have hyb : isBlank (y ++ b) = true := by
      rw [isBlank_append, hy, hb]
      rfl
    have hax : isBlank (a ++ x) = true := by
      rw [isBlank_append, ha, hx]
      rfl
    have hsplit : a ++ t ++ b = (a ++ x) ++ (trim t ++ (y ++ b)) := by
      conv => lhs; rw [heq]
      simp only [List.append_assoc]
    rw [hsplit, trim, trimStart_append hax, trimStart_eq_self (by rw [hhead]; exact head?_trim t),
      trimEnd_append hyb, trimEnd_eq_self (getLast?_trim t)]

/-- White space behind a text makes no difference when it is trimmed. -/
theorem trim_append {b : Text} (hb : isBlank b = true) (t : Text) : trim (t ++ b) = trim t :=
  trim_append_append (a := []) rfl hb t

/-- White space before a text makes no difference when it is trimmed. -/
theorem trim_append_left {a : Text} (ha : isBlank a = true) (t : Text) : trim (a ++ t) = trim t := by
  have hboth := trim_append_append ha (b := []) rfl t
  rwa [List.append_nil] at hboth

/-- A character of white space before a text makes no difference when it is trimmed. -/
theorem trim_cons {c : Char} (hc : isSpace c = true) (t : Text) : trim (c :: t) = trim t :=
  trim_append_left (a := [c]) (by simpa [isBlank] using hc) t

/-- The trimming of the start ends within a text with ink, so what comes after stays. -/
theorem trimStart_append_of_not_isBlank {s : Text} (h : isBlank s = false) (t : Text) :
    trimStart (s ++ t) = trimStart s ++ t := by
  have hne : (s.dropWhile isSpace).isEmpty = false := by
    rw [List.isEmpty_eq_false_iff, ne_eq, ← trimStart, trimStart_eq_nil_iff, h]
    exact Bool.false_ne_true
  rw [trimStart, List.dropWhile_append, hne]
  rfl

/-- The trimming of the end ends within a text with ink, so what comes before stays. -/
theorem trimEnd_append_of_not_isBlank {s : Text} (h : isBlank s = false) (t : Text) :
    trimEnd (t ++ s) = t ++ trimEnd s := by
  rw [← isBlank_reverse] at h
  have hstart := trimStart_append_of_not_isBlank h t.reverse
  rw [trimStart, trimStart] at hstart
  rw [trimEnd, List.reverse_append, hstart, List.reverse_append, List.reverse_reverse, trimEnd]

/-- Trimming leaves something of a text that is not blank. -/
theorem trimEnd_ne_nil {t : Text} (h : isBlank t = false) : trimEnd t ≠ [] := by
  intro hnil
  obtain ⟨b, hb, heq⟩ := exists_trimEnd t
  rw [hnil, List.nil_append] at heq
  rw [heq, hb] at h
  cases h

/-- What stands between two texts with ink stays when the whole is trimmed. -/
theorem trim_append_of_not_isBlank {s t : Text} (hs : isBlank s = false) (ht : isBlank t = false)
    (m : Text) : trim (s ++ m ++ t) = trimStart s ++ m ++ trimEnd t := by
  rw [trim, List.append_assoc, trimStart_append_of_not_isBlank hs, ← List.append_assoc,
    trimEnd_append_of_not_isBlank ht]

/-- What comes after a text makes no difference when the whole is trimmed exactly if it is blank. -/
theorem trim_append_eq_iff {s t : Text} : trim (s ++ t) = trim s ↔ isBlank t = true := by
  refine ⟨fun heq => ?_, fun ht => trim_append ht s⟩
  cases hs : isBlank s with
  | true =>
    rw [trim_eq_nil_iff.mpr hs, trim, trimStart_append hs] at heq
    exact trim_eq_nil_iff.mp heq
  | false =>
    cases ht : isBlank t with
    | true => rfl
    | false =>
      -- the ink of the second text is missing
      obtain ⟨b, -, hsplit⟩ := exists_trimEnd (trimStart s)
      have hpos := List.length_pos_iff.mpr (trimEnd_ne_nil ht)
      rw [trim, trimStart_append_of_not_isBlank hs, trimEnd_append_of_not_isBlank ht, trim] at heq
      have hlengths := congrArg List.length hsplit
      have heqs := congrArg List.length heq
      simp only [List.length_append] at hlengths heqs
      omega

/-- White space between two texts makes no difference when the whole is trimmed exactly if there is
none, or no ink before it or after it. Otherwise it stays between the two. -/
theorem trim_insert {space : Text} (hspace : isBlank space = true) (s t : Text) :
    (trim (s ++ space ++ t) = trim (s ++ t) ↔
        space = [] ∨ trim s = [] ∨ trim (s ++ t) = trim s) ∧
      (trim (s ++ space ++ t) ≠ trim (s ++ t) → ∃ u v, trim u = trim s ∧ trim (s ++ t) = u ++ v ∧
        trim (s ++ space ++ t) = u ++ space ++ v) := by
  cases hs : isBlank s with
  | true =>
    have hboth : isBlank (s ++ space) = true := by
      rw [isBlank_append, hs, hspace]
      rfl
    have hsame : trim (s ++ space ++ t) = trim (s ++ t) := by
      rw [trim, trim, trimStart_append hboth, trimStart_append hs]
    exact ⟨iff_of_true hsame (Or.inr (Or.inl (trim_eq_nil_iff.mpr hs))), fun hne => absurd hsame hne⟩
  | false =>
    cases ht : isBlank t with
    | true =>
      have hstays : trim (s ++ t) = trim s := trim_append ht s
      have hsame : trim (s ++ space ++ t) = trim (s ++ t) := by
        rw [hstays, trim_append ht, trim_append hspace]
      exact ⟨iff_of_true hsame (Or.inr (Or.inr hstays)), fun hne => absurd hsame hne⟩
    | false =>
      have hlong : trim (s ++ space ++ t) = trimStart s ++ space ++ trimEnd t :=
        trim_append_of_not_isBlank hs ht space
      have hshort : trim (s ++ t) = trimStart s ++ trimEnd t := by
        have hnothing := trim_append_of_not_isBlank hs ht []
        rwa [List.append_nil, List.append_nil] at hnothing
      have hink : trim s ≠ [] := by
        rw [ne_eq, trim_eq_nil_iff, hs]
        exact Bool.false_ne_true
      have hlonger : trim (s ++ t) ≠ trim s := by
        rw [ne_eq, trim_append_eq_iff, ht]
        exact Bool.false_ne_true
      rw [hlong]
      refine ⟨⟨fun hsame => Or.inl ?_, ?_⟩, fun _ =>
        ⟨trimStart s, trimEnd t, ?_, hshort, rfl⟩⟩
      · rwa [hshort, List.append_left_inj, List.append_right_eq_self] at hsame
      · rintro (rfl | hnil | hstays)
        · rw [hshort, List.append_nil]
        · exact absurd hnil hink
        · exact absurd hstays hlonger
      · rw [trim, trimStart_eq_self (head?_trimStart s), trim]

/-- A text without white space is trimmed. -/
theorem trim_of_solid {t : Text} (h : t.all (!isSpace ·) = true) : trim t = t := by
  have hsolid {c : Char} (hc : c ∈ t) : isSpace c = false := by
    simpa using List.all_eq_true.mp h c hc
  refine trim_eq_self_iff.mpr ⟨?_, ?_⟩
  · cases hhead : t.head? with
    | none => rfl
    | some c => exact hsolid (List.mem_of_mem_head? hhead)
  · cases hlast : t.getLast? with
    | none => rfl
    | some c => exact hsolid (List.mem_of_getLast? hlast)

end PromptScript.Text
