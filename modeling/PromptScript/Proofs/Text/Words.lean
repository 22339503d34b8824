import PromptScript.Text.Blank

/-!
# Words of a text

A text without white space is one word, and white space between two such texts makes two words of
them.
-/

namespace PromptScript.Text

section

attribute [local simp] wordsFrom

/-- A text without white space lengthens the word that is growing. -/
theorem wordsFrom_append {a : Text} (h : a.all (!isSpace ·) = true) (word rest : Text) :
    wordsFrom word (a ++ rest) = wordsFrom (word ++ a) rest := by
  induction a generalizing word with
  | nil => simp
  | cons c a ih =>
    obtain ⟨hc, ha⟩ := by simpa only [List.all_cons, Bool.and_eq_true] using h
    have hspace : isSpace c = false := by simpa using hc
    simp [hspace, ih ha]

/-- White space before a word changes nothing. -/
theorem wordsFrom_nil_append {space : Text} (h : isBlank space = true) (rest : Text) :
    wordsFrom [] (space ++ rest) = wordsFrom [] rest := by
  induction space with
  | nil => rfl
  | cons c space ih =>
    obtain ⟨hc, hspace⟩ := by simpa only [isBlank, List.all_cons, Bool.and_eq_true] using h
    simp [hc, ih hspace]

end

/-- A text without white space is one word. -/
theorem words_of_solid {a : Text} (hne : a ≠ []) (h : a.all (!isSpace ·) = true) :
    words a = [a] := by
  have hwords := wordsFrom_append h [] []
  rw [List.append_nil, List.nil_append] at hwords
  rw [words, hwords, wordsFrom, if_neg (by simpa using hne)]

/-- Two texts without white space are two words if white space stands between them. -/
theorem words_append_append {a space b : Text} (hane : a ≠ []) (ha : a.all (!isSpace ·) = true)
    (hne : space ≠ []) (hspace : isBlank space = true) (hbne : b ≠ [])
    (hb : b.all (!isSpace ·) = true) : words (a ++ space ++ b) = [a, b] := by
  cases space with
  | nil => exact absurd rfl hne
  | cons c space =>
    obtain ⟨hc, hrest⟩ := by simpa only [isBlank, List.all_cons, Bool.and_eq_true] using hspace
    have hsecond := words_of_solid hbne hb
    rw [words] at hsecond ⊢
    rw [List.append_assoc, wordsFrom_append ha, List.nil_append, List.cons_append, wordsFrom,
      if_pos hc, if_neg (by simpa using hane), wordsFrom_nil_append hrest, hsecond]

end PromptScript.Text
