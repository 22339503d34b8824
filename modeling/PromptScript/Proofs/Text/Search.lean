import PromptScript.Proofs.Text.Trim
import PromptScript.Proofs.Text.Words
import PromptScript.Text.Split

/-!
# Searching a text

A search for a text can be cut wherever a character stands that the searched text does not hold,
and a search for a whole word can be cut at white space. So white space around a text makes no
difference to what is found in it.
-/

namespace PromptScript.Text

/-- A text in front is found there. -/
theorem dropStart?_append_self (lead t : Text) : dropStart? lead (lead ++ t) = some t := by
  induction lead with
  | nil => rfl
  | cons c lead ih => rw [List.cons_append, dropStart?, if_pos rfl, ih]

/-- What is left after a start makes up the text with it. -/
theorem dropStart?_eq_some {lead t rest : Text} (h : dropStart? lead t = some rest) :
    t = lead ++ rest := by
  induction lead generalizing t with
  | nil =>
    cases h
    rfl
  | cons c lead ih =>
    cases t with
    | nil => cases h
    | cons d t =>
      rw [dropStart?] at h
      split at h
      · rename_i hcd
        rw [ih h, hcd]
        rfl
      · cases h

/-- A start is found in front of a character that it does not hold, or not at all. -/
theorem dropStart?_append_cons {lead : Text} {c : Char} (hc : c ∉ lead) (s t : Text) :
    dropStart? lead (s ++ c :: t) = (dropStart? lead s).map (· ++ c :: t) := by
  induction lead generalizing s with
  | nil => rfl
  | cons d lead ih =>
    have hd : d ≠ c := fun heq => hc (heq ▸ List.mem_cons_self)
    have hlead : c ∉ lead := fun hmem => hc (List.mem_cons_of_mem d hmem)
    cases s with
    | nil => simp [dropStart?, hd]
    | cons x s =>
      rw [List.cons_append, dropStart?, dropStart?]
      split
      · exact ih hlead s
      · rfl

/-- A text that does not end in the character has nothing to trim. -/
theorem trimEndChar_eq_self {c : Char} {t : Text} (h : t.getLast? ≠ some c) :
    trimEndChar c t = t := by
  rw [trimEndChar]
  cases hrev : t.reverse with
  | nil => rw [List.reverse_eq_nil_iff.mp hrev]; rfl
  | cons d rev =>
    have hlast : t.getLast? = some d := by rw [← List.head?_reverse, hrev]; rfl
    have hd : ¬(fun x => x == c) d = true := by
      intro heq
      rw [hlast, eq_of_beq heq] at h
      exact h rfl
    rw [List.dropWhile_cons_of_neg (p := (· == c)) hd, ← hrev, List.reverse_reverse]

/-- Trimming repetitions of a character from the end leaves another one there, or none. -/
theorem getLast?_trimEndChar (c : Char) (t : Text) : (trimEndChar c t).getLast? ≠ some c := by
  rw [trimEndChar, List.getLast?_reverse]
  induction t.reverse with
  | nil => simp
  | cons d t ih =>
    rw [List.dropWhile_cons]
    split
    · exact ih
    · rename_i hd
      simpa using hd

/-- Trimming repetitions of a character adds no character. -/
theorem mem_of_mem_trimEndChar {c d : Char} {t : Text} (h : d ∈ trimEndChar c t) : d ∈ t := by
  rw [trimEndChar, List.mem_reverse] at h
  exact List.mem_reverse.mp ((List.dropWhile_sublist _).subset h)

/-- One more of the character at the end is what is trimmed. -/
theorem trimEndChar_append_self {c : Char} {t : Text} (h : t.getLast? ≠ some c) :
    trimEndChar c (t ++ [c]) = t := by
  rw [trimEndChar, List.reverse_append, List.reverse_singleton, List.singleton_append,
    List.dropWhile_cons_of_pos (by simp), ← trimEndChar, trimEndChar_eq_self h]

/-- Quotes around a text without quotes are what trimming them takes. -/
theorem trimChar_quoted {c : Char} {t : Text} (h : c ∉ t) : trimChar c (c :: (t ++ [c])) = t := by
  have hdrop : (t ++ [c]).dropWhile (· == c) = if t = [] then [] else t ++ [c] := by
    cases t with
    | nil => simp
    | cons d t =>
      have hd : d ≠ c := fun heq => h (heq ▸ List.mem_cons_self)
      simp [hd]
  rw [trimChar, List.dropWhile_cons_of_pos (by simp), hdrop]
  split
  · rename_i hnil
    rw [hnil]
    rfl
  · exact trimEndChar_append_self fun hlast => h (List.mem_of_getLast? hlast)

/-- A split at the first character of a class makes up the text, and the class does not occur
before. -/
theorem splitFirst?_eq_some {p : Char → Bool} {t a b : Text} (h : splitFirst? p t = some (a, b)) :
    ∃ c, p c = true ∧ t = a ++ c :: b ∧ a.all (!p ·) = true := by
  induction t generalizing a with
  | nil => cases h
  | cons c t ih =>
    rw [splitFirst?] at h
    split at h
    · rename_i hc
      cases h
      exact ⟨c, hc, rfl, rfl⟩
    · rename_i hc
      obtain ⟨parts, hparts, heq⟩ := Option.map_eq_some_iff.mp h
      cases heq
      obtain ⟨d, hd, ht, ha⟩ := ih hparts
      exact ⟨d, hd, by rw [ht]; rfl, by simp [hc, ha]⟩

/-- The split is at the first character of the class. -/
theorem splitFirst?_append_cons {p : Char → Bool} {a : Text} (ha : a.all (!p ·) = true) {c : Char}
    (hc : p c = true) (b : Text) : splitFirst? p (a ++ c :: b) = some (a, b) := by
  induction a with
  | nil => rw [List.nil_append, splitFirst?, if_pos hc]
  | cons x a ih =>
    obtain ⟨hx, hrest⟩ := by simpa only [List.all_cons, Bool.and_eq_true] using ha
    rw [List.cons_append, splitFirst?, if_neg (by simpa using hx), ih hrest]
    rfl

/-- There is no split exactly if no character is of the class. -/
theorem splitFirst?_eq_none_iff {p : Char → Bool} {t : Text} :
    splitFirst? p t = none ↔ t.all (!p ·) = true := by
  induction t with
  | nil => exact ⟨fun _ => rfl, fun _ => rfl⟩
  | cons c t ih =>
    rw [splitFirst?, List.all_cons]
    cases hc : p c with
    | true => simp
    | false => simpa [hc] using ih

variable {needle : Text}

/-- Where a character stands that the needle does not hold, the search can be cut. -/
theorem splitOnce?_append_cons {c : Char} (hne : needle ≠ []) (hc : c ∉ needle) (s t : Text) :
    splitOnce? needle (s ++ c :: t) =
      match splitOnce? needle s with
      | some parts => some (parts.1, parts.2 ++ c :: t)
      | none => (splitOnce? needle t).map fun parts => (s ++ c :: parts.1, parts.2) := by
  induction s with
  | nil =>
    have hfirst : dropStart? needle (c :: t) = none := by
      cases needle with
      | nil => exact absurd rfl hne
      | cons d needle =>
        have hd : d ≠ c := fun heq => hc (heq ▸ List.mem_cons_self)
        rw [dropStart?, if_neg hd]
    simp only [List.nil_append, splitOnce?, hfirst]
  | cons x s ih =>
    have hcut := dropStart?_append_cons hc (x :: s) t
    rw [List.cons_append] at hcut ⊢
    rw [splitOnce?, hcut, splitOnce?, ih]
    cases dropStart? needle (x :: s) with
    | some rest => rfl
    | none =>
      cases splitOnce? needle s with
      | some parts => rfl
      | none =>
        simp only [Option.map_none, Option.map_map]
        rfl

/-- What is found in a text makes it up, and the needle does not occur before. -/
theorem splitOnce?_eq_some {t a b : Text} (h : splitOnce? needle t = some (a, b)) :
    t = a ++ needle ++ b ∧ splitOnce? needle a = none := by
  induction t generalizing a with
  | nil => cases h
  | cons c t ih =>
    rw [splitOnce?] at h
    split at h
    · rename_i rest hstart
      cases h
      exact ⟨dropStart?_eq_some hstart, rfl⟩
    · rename_i hstart
      obtain ⟨parts, hparts, heq⟩ := Option.map_eq_some_iff.mp h
      cases heq
      obtain ⟨ht, hnone⟩ := ih hparts
      refine ⟨by rw [ht]; simp, ?_⟩
      have hshort : dropStart? needle (c :: parts.1) = none := by
        cases hfound : dropStart? needle (c :: parts.1) with
        | none => rfl
        | some rest =>
          have hlead := dropStart?_eq_some hfound
          rw [ht, ← List.cons_append, ← List.cons_append, hlead, List.append_assoc,
            List.append_assoc, dropStart?_append_self] at hstart
          cases hstart
      rw [splitOnce?, hshort, hnone]
      rfl

/-- A needle at the front is found with nothing before it. -/
theorem splitOnce?_append_self (hne : needle ≠ []) (t : Text) :
    splitOnce? needle (needle ++ t) = some ([], t) := by
  cases needle with
  | nil => exact absurd rfl hne
  | cons c needle =>
    have hstart := dropStart?_append_self (c :: needle) t
    rw [List.cons_append] at hstart ⊢
    rw [splitOnce?, hstart]

/-- A needle that occurs is found. -/
theorem splitOnce?_isSome_of_infix (hne : needle ≠ []) (a b : Text) :
    (splitOnce? needle (a ++ needle ++ b)).isSome = true := by
  induction a with
  | nil => rw [List.nil_append, splitOnce?_append_self hne]; rfl
  | cons c a ih =>
    rw [List.cons_append, List.cons_append, splitOnce?]
    split
    · rfl
    · rw [Option.isSome_map, ih]

/-- A needle is found in the texts that hold it. -/
theorem splitOnce?_eq_none_iff (hne : needle ≠ []) {t : Text} :
    splitOnce? needle t = none ↔ ¬needle <:+: t := by
  constructor
  · rintro hnone ⟨a, b, rfl⟩
    have hsome := splitOnce?_isSome_of_infix hne a b
    rw [hnone] at hsome
    cases hsome
  · intro hnot
    cases hfound : splitOnce? needle t with
    | none => rfl
    | some parts => exact absurd ⟨parts.1, parts.2, (splitOnce?_eq_some hfound).1.symm⟩ hnot

/-- A needle that does not occur in a text does not occur in a part of it. -/
theorem splitOnce?_eq_none_of_infix (hne : needle ≠ []) {a s b : Text}
    (h : splitOnce? needle (a ++ s ++ b) = none) : splitOnce? needle s = none := by
  cases hs : splitOnce? needle s with
  | none => rfl
  | some parts =>
    have hsplit := (splitOnce?_eq_some hs).1
    have hsome := splitOnce?_isSome_of_infix hne (a ++ parts.1) (parts.2 ++ b)
    have hjoin : a ++ s ++ b = a ++ parts.1 ++ needle ++ (parts.2 ++ b) := by
      rw [hsplit]
      simp only [List.append_assoc]
    rw [hjoin] at h
    rw [h] at hsome
    cases hsome

/-- Both parts of a split, trimmed. -/
def trimParts (parts : Text × Text) : Text × Text :=
  (trim parts.1, trim parts.2)

/-- White space before the first part makes no difference once the parts are trimmed. -/
theorem trimParts_cons {c : Char} (hc : isSpace c = true) (parts : Text × Text) :
    trimParts (c :: parts.1, parts.2) = trimParts parts := by
  rw [trimParts, trimParts, trim_cons hc]

/-- White space around a text makes no difference to what is found in it, once trimmed. -/
theorem splitOnce?_trim (hne : needle ≠ []) (hneedle : needle.all (!isSpace ·) = true) (t : Text) :
    (splitOnce? needle (trim t)).map trimParts = (splitOnce? needle t).map trimParts := by
  have hnot {c : Char} (hc : isSpace c = true) : c ∉ needle := by
    intro hmem
    have := List.all_eq_true.mp hneedle c hmem
    rw [hc] at this
    cases this
  have hleft {space : Text} (hspace : isBlank space = true) (s : Text) :
      (splitOnce? needle (space ++ s)).map trimParts = (splitOnce? needle s).map trimParts := by
    induction space with
    | nil => rfl
    | cons c space ih =>
      obtain ⟨hc, hrest⟩ := by simpa only [isBlank, List.all_cons, Bool.and_eq_true] using hspace
      have hcut := splitOnce?_append_cons hne (hnot hc) [] (space ++ s)
      rw [List.nil_append] at hcut
      rw [← ih hrest, List.cons_append, hcut]
      cases splitOnce? needle (space ++ s) with
      | none => rfl
      | some parts => exact congrArg some (trimParts_cons hc parts)
  have hright {space : Text} (hspace : isBlank space = true) (s : Text) :
      (splitOnce? needle (s ++ space)).map trimParts = (splitOnce? needle s).map trimParts := by
    cases space with
    | nil => rw [List.append_nil]
    | cons c space =>
      obtain ⟨hc, hrest⟩ := by simpa only [isBlank, List.all_cons, Bool.and_eq_true] using hspace
      have hnone : splitOnce? needle space = none := by
        cases hfound : splitOnce? needle space with
        | none => rfl
        | some parts =>
          have hsplit := (splitOnce?_eq_some hfound).1
          cases needle with
          | nil => exact absurd rfl hne
          | cons d needle =>
            have hd : isSpace d = true := List.all_eq_true.mp hrest d (by rw [hsplit]; simp)
            exact absurd List.mem_cons_self (hnot hd)
      rw [splitOnce?_append_cons hne (hnot hc), hnone]
      cases splitOnce? needle s with
      | none => rfl
      | some parts => simp only [Option.map_some, trimParts, trim_append hspace]
  obtain ⟨a, b, ha, hb, heq⟩ := exists_trim t
  conv => rhs; rw [heq]
  rw [hright hb, hleft ha]

variable {word : Text}

/-- White space after a text ends a word before it as the end of the text does. -/
theorem opensBlank_append_cons {c : Char} (hc : isSpace c = true) (s t : Text) :
    opensBlank (s ++ c :: t) = opensBlank s := by
  cases s with
  | nil => exact hc
  | cons x s => rfl

/-- A search for a whole word can be cut at white space. -/
theorem splitWordFrom?_append_cons {c : Char} (hc : isSpace c = true)
    (hword : word.all (!isSpace ·) = true) (hne : word ≠ []) (free : Bool) (s t : Text) :
    splitWordFrom? word free (s ++ c :: t) =
      match splitWordFrom? word free s with
      | some parts => some (parts.1, parts.2 ++ c :: t)
      | none => (splitWordFrom? word true t).map fun parts => (s ++ c :: parts.1, parts.2) := by
  -- the word holds no white space, so it is not found across the cut
  have hnot : c ∉ word := by
    intro hmem
    have := List.all_eq_true.mp hword c hmem
    rw [hc] at this
    cases this
  induction s generalizing free with
  | nil =>
    have hfirst : dropStart? word (c :: t) = none := by
      cases word with
      | nil => exact absurd rfl hne
      | cons d word =>
        have hd : d ≠ c := fun heq => hnot (heq ▸ List.mem_cons_self)
        rw [dropStart?, if_neg hd]
    simp only [List.nil_append, splitWordFrom?, hfirst, hc]
    cases free <;> rfl
  | cons x s ih =>
    have hcut := dropStart?_append_cons hnot (x :: s) t
    rw [List.cons_append] at hcut ⊢
    have hfilter : (if free then dropStart? word (x :: (s ++ c :: t)) else none).filter opensBlank =
        ((if free then dropStart? word (x :: s) else none).filter opensBlank).map (· ++ c :: t) := by
      cases free with
      | false => rfl
      | true =>
        simp only [if_true, hcut]
        cases dropStart? word (x :: s) with
        | none => rfl
        | some rest =>
          simp only [Option.map_some, Option.filter, opensBlank_append_cons hc]
          split <;> rfl
    rw [splitWordFrom?, hfilter, splitWordFrom?, ih]
    cases (if free then dropStart? word (x :: s) else none).filter opensBlank with
    | some rest => rfl
    | none =>
      simp only [Option.map_none]
      cases splitWordFrom? word (isSpace x) s with
      | some parts => rfl
      | none =>
        simp only [Option.map_none, Option.map_map]
        rfl

/-- A word by itself is found at once. -/
theorem splitWordFrom?_self (hne : word ≠ []) : splitWordFrom? word true word = some ([], []) := by
  cases word with
  | nil => exact absurd rfl hne
  | cons c word =>
    have hstart : dropStart? (c :: word) (c :: word) = some [] := by
      have happend := dropStart?_append_self (c :: word) []
      rwa [List.append_nil] at happend
    rw [splitWordFrom?]
    simp only [if_true, hstart]
    rfl

/-- A word with white space or nothing after it is found at once. -/
theorem splitWordFrom?_append_self (hword : word.all (!isSpace ·) = true) (hne : word ≠ [])
    {t : Text} (ht : opensBlank t = true) :
    splitWordFrom? word true (word ++ t) = some ([], t) := by
  cases t with
  | nil => rw [List.append_nil, splitWordFrom?_self hne]
  | cons c t => rw [splitWordFrom?_append_cons ht hword hne, splitWordFrom?_self hne]; rfl

/-- A word after a text without it, with a blank between and white space or nothing after it, is
found there. -/
theorem splitWord?_append_blank (hword : word.all (!isSpace ·) = true) (hne : word ≠ [])
    {s t : Text} (hs : splitWord? word s = none) (ht : opensBlank t = true) :
    splitWord? word (s ++ ' ' :: (word ++ t)) = some (trim s, trim t) := by
  have hnone : splitWordFrom? word true s = none := Option.map_eq_none_iff.mp hs
  have hblank : isBlank [' '] = true := rfl
  rw [splitWord?, splitWordFrom?_append_cons rfl hword hne, hnone,
    splitWordFrom?_append_self hword hne ht]
  simp only [Option.map_some, trim_append hblank]

/-- What is found of a word makes up the text. -/
theorem splitWordFrom?_eq_some {free : Bool} {t a b : Text}
    (h : splitWordFrom? word free t = some (a, b)) : t = a ++ word ++ b := by
  induction t generalizing free a with
  | nil => cases h
  | cons c t ih =>
    rw [splitWordFrom?] at h
    split at h
    · rename_i rest hstart
      cases h
      have hfound := (Option.filter_eq_some_iff.mp hstart).1
      split at hfound
      · exact dropStart?_eq_some hfound
      · cases hfound
    · obtain ⟨parts, hparts, heq⟩ := Option.map_eq_some_iff.mp h
      cases heq
      rw [ih hparts]
      rfl

/-- A word that is found is one of the words of the text. -/
theorem mem_words_of_splitWordFrom? (hword : word.all (!isSpace ·) = true) (hne : word ≠ [])
    {grown t : Text} {parts : Text × Text}
    (h : splitWordFrom? word grown.isEmpty t = some parts) : word ∈ wordsFrom grown t := by
  induction t generalizing grown parts with
  | nil => cases h
  | cons c t ih =>
    rw [splitWordFrom?] at h
    split at h
    · rename_i after hstart
      obtain ⟨hfound, hblank⟩ := Option.filter_eq_some_iff.mp hstart
      split at hfound
      · rename_i hfree
        rw [List.isEmpty_iff.mp hfree, dropStart?_eq_some hfound, wordsFrom_append hword,
          List.nil_append]
        cases after with
        | nil => simp [wordsFrom, hne]
        | cons d after =>
          have hd : isSpace d = true := hblank
          simp [wordsFrom, hd, hne]
      · cases hfound
    · obtain ⟨found, hfound, -⟩ := Option.map_eq_some_iff.mp h
      rw [wordsFrom]
      cases hc : isSpace c with
      | true =>
        rw [hc, ← List.isEmpty_nil] at hfound
        have hmem := ih hfound
        rw [if_pos rfl]
        split
        · exact hmem
        · exact List.mem_cons_of_mem _ hmem
      | false =>
        have hgrown : (grown ++ [c]).isEmpty = false := by simp
        rw [hc, ← hgrown] at hfound
        rw [if_neg Bool.false_ne_true]
        exact ih hfound

/-- A word that is not one of the words of a text is not found in it. -/
theorem splitWord?_eq_none (hword : word.all (!isSpace ·) = true) (hne : word ≠ []) {t : Text}
    (h : word ∉ words t) : splitWord? word t = none := by
  refine Option.map_eq_none_iff.mpr ?_
  cases hfound : splitWordFrom? word true t with
  | none => rfl
  | some parts =>
    rw [← List.isEmpty_nil] at hfound
    exact absurd (mem_words_of_splitWordFrom? hword hne hfound) h

/-- White space before a text makes no difference to a search for a word. -/
theorem splitWord?_append_left {space : Text} (hspace : isBlank space = true)
    (hword : word.all (!isSpace ·) = true) (hne : word ≠ []) (t : Text) :
    splitWord? word (space ++ t) = splitWord? word t := by
  induction space with
  | nil => rfl
  | cons c space ih =>
    obtain ⟨hc, hrest⟩ := by simpa only [isBlank, List.all_cons, Bool.and_eq_true] using hspace
    have hcut := splitWordFrom?_append_cons hc hword hne true [] (space ++ t)
    rw [List.nil_append] at hcut
    rw [← ih hrest, splitWord?, splitWord?, List.cons_append, hcut]
    cases splitWordFrom? word true (space ++ t) with
    | none => rfl
    | some parts =>
      simp only [splitWordFrom?, Option.map_some, List.nil_append, trim_cons hc]

/-- White space after a text makes no difference to a search for a word. -/
theorem splitWord?_append_right {space : Text} (hspace : isBlank space = true)
    (hword : word.all (!isSpace ·) = true) (hne : word ≠ []) (t : Text) :
    splitWord? word (t ++ space) = splitWord? word t := by
  cases space with
  | nil => rw [List.append_nil]
  | cons c space =>
    obtain ⟨hc, hrest⟩ := by simpa only [isBlank, List.all_cons, Bool.and_eq_true] using hspace
    have hnone : splitWordFrom? word true space = none := by
      cases hfound : splitWordFrom? word true space with
      | none => rfl
      | some parts =>
        have hsplit := splitWordFrom?_eq_some hfound
        cases word with
        | nil => exact absurd rfl hne
        | cons d word =>
          have hd : isSpace d = true := List.all_eq_true.mp hrest d (by rw [hsplit]; simp)
          simp [hd] at hword
    rw [splitWord?, splitWord?, splitWordFrom?_append_cons hc hword hne, hnone]
    cases splitWordFrom? word true t with
    | none => rfl
    | some parts => simp only [Option.map_some, trim_append hspace]

/-- White space around a text makes no difference to a search for a word. -/
theorem splitWord?_trim (hword : word.all (!isSpace ·) = true) (hne : word ≠ []) (t : Text) :
    splitWord? word (trim t) = splitWord? word t := by
  obtain ⟨a, b, ha, hb, heq⟩ := exists_trim t
  conv => rhs; rw [heq]
  rw [splitWord?_append_right hb hword hne, splitWord?_append_left ha hword hne]

/-- A word is found in a trimmed text after a blank where it is found in the text. -/
theorem splitWord?_trim_blank (hword : word.all (!isSpace ·) = true) (hne : word ≠ []) (t : Text) :
    splitWord? word (trim (' ' :: t)) = splitWord? word t := by
  have hblank : isBlank [' '] = true := rfl
  rw [splitWord?_trim hword hne, ← List.singleton_append, splitWord?_append_left hblank hword hne]

/-- A word that is found stays where it is with white space and more text after it. -/
theorem splitWord?_append_of_some (hword : word.all (!isSpace ·) = true) (hne : word ≠ [])
    {s a b : Text} (h : splitWord? word s = some (a, b)) (t : Text) :
    ∃ rest, splitWord? word (s ++ ' ' :: t) = some (a, rest) := by
  obtain ⟨parts, hparts, heq⟩ := Option.map_eq_some_iff.mp h
  cases heq
  rw [splitWord?, splitWordFrom?_append_cons rfl hword hne, hparts]
  exact ⟨_, rfl⟩

end PromptScript.Text
